/-
# Jobs and their tasks

Which task belongs to which job of the API server (`HelmSsh.Api.Server`).  A job is
claimed by the request that has created it and, from the spawn on, by its task, by
one of them at a time.  A handle that is attached to a job is the handle of its
task, and a task that has ended has ended its job, unless it was aborted.

* `JobTasks` — the invariant, of the jobs and the tasks alone.
* `JobTasks.taskStep` — every step of a task keeps it, but an abort.
* `JobEnded` — a job that has ended, with no task past `mark_connecting`;
  `JobEnded.taskStep` — no step of a task changes that, not even an abort.
-/

import HelmSsh.Api.Moves

namespace HelmSsh
namespace Api

/-- The task belongs to the job `j`, or is about to spawn its task. -/
def Task.Claims (t : Task) (j : ℕ) : Prop :=
  t.job = some j ∨ t.phase = .created j

/-- Which task belongs to which job. -/
structure JobTasks (jobs : List JobRecord) (tasks : List Task) : Prop where
  unique : ∀ (i k : ℕ) (t u : Task) (j : ℕ), tasks[i]? = some t → tasks[k]? = some u →
    t.Claims j → u.Claims j → i = k
  bound : ∀ (i : ℕ) (t : Task) (j : ℕ), tasks[i]? = some t → t.Claims j → j < jobs.length
  request : ∀ (i : ℕ) (t : Task) (j : ℕ), tasks[i]? = some t → t.phase = .created j →
    t.job = none
  /-- A handle that is about to be attached to a job is that of its task. -/
  spawned : ∀ (i : ℕ) (t : Task) (j k : ℕ), tasks[i]? = some t → t.phase = .spawned j k →
    ∃ u : Task, tasks[k]? = some u ∧ u.job = some j
  handle : ∀ (j : ℕ) (r : JobRecord) (k : ℕ), jobs[j]? = some r → r.handle = some k →
    ∃ u : Task, tasks[k]? = some u ∧ u.job = some j
  /-- A task that has ended has ended its job. -/
  ended : ∀ (i : ℕ) (t : Task) (j : ℕ), tasks[i]? = some t → t.job = some j → t.phase = .done →
    ∀ r : JobRecord, jobs[j]? = some r → r.status.isTerminal = true

namespace JobTasks

variable {jobs : List JobRecord} {tasks : List Task} {i : ℕ} {t : Task}

/-- A job keeps its task when a task changes its phase. -/
theorem exists_set (ht : tasks[i]? = some t) {j k : ℕ} (phase : TaskPhase)
    (h : ∃ u : Task, tasks[k]? = some u ∧ u.job = some j) :
    ∃ u : Task, (tasks.set i { t with phase := phase })[k]? = some u ∧ u.job = some j := by
  obtain ⟨u, hu, hjob⟩ := h
  by_cases hk : k = i
  · subst hk
    rw [ht] at hu
    obtain rfl := Option.some.inj hu
    exact ⟨_, Pool.getElem?_set_self ht, hjob⟩
  · exact ⟨u, (List.getElem?_set_ne (fun hik => hk hik.symm)).trans hu, hjob⟩

/-- A task that starts no job changes its phase; it ends only after its job. -/
theorem setPhase (h : JobTasks jobs tasks) (ht : tasks[i]? = some t) (phase : TaskPhase)
    (hstarts : phase.starts = false)
    (hdone : phase = .done → ∀ j ∈ t.job, ∀ r : JobRecord, jobs[j]? = some r →
      r.status.isTerminal = true) : JobTasks jobs (tasks.set i { t with phase := phase }) := by
  have hclaims : ∀ j, ({ t with phase := phase } : Task).Claims j → t.Claims j := by
    rintro j (hjob | hphase)
    · exact .inl hjob
    · simp only at hphase
      rw [hphase] at hstarts
      cases hstarts
  constructor
  case unique =>
    intro k l u v j hu hv hcu hcv
    rcases Pool.getElem?_set hu with ⟨rfl, rfl⟩ | ⟨-, holdu⟩ <;>
      rcases Pool.getElem?_set hv with ⟨rfl, rfl⟩ | ⟨-, holdv⟩
    · rfl
    · exact h.unique k l t v j ht holdv (hclaims j hcu) hcv
    · exact h.unique k l u t j holdu ht hcu (hclaims j hcv)
    · exact h.unique k l u v j holdu holdv hcu hcv
  case bound =>
    intro k u j hu hcu
    rcases Pool.getElem?_set hu with ⟨-, rfl⟩ | ⟨-, hold⟩
    · exact h.bound i t j ht (hclaims j hcu)
    · exact h.bound k u j hold hcu
  case request =>
    intro k u j hu hphase
    rcases Pool.getElem?_set hu with ⟨-, rfl⟩ | ⟨-, hold⟩
    · simp only at hphase
      rw [hphase] at hstarts
      cases hstarts
    · exact h.request k u j hold hphase
  case spawned =>
    intro k u j l hu hphase
    rcases Pool.getElem?_set hu with ⟨-, rfl⟩ | ⟨-, hold⟩
    · simp only at hphase
      rw [hphase] at hstarts
      cases hstarts
    · exact exists_set ht phase (h.spawned k u j l hold hphase)
  case handle =>
    intro j r k hr hk
    exact exists_set ht phase (h.handle j r k hr hk)
  case ended =>
    intro k u j hu hjob hphase r hr
    rcases Pool.getElem?_set hu with ⟨-, rfl⟩ | ⟨-, hold⟩
    · exact hdone hphase j hjob r hr
    · exact h.ended k u j hold hjob hphase r hr

/-- A job's record changes; it may only get the handle of its task. -/
theorem modify (h : JobTasks jobs tasks) (j : ℕ) {f : JobRecord → JobRecord}
    (hterminal : ∀ r, r.status.isTerminal = true → (f r).status = r.status)
    (hhandle : ∀ r k, (f r).handle = some k → r.handle = some k ∨
      ∃ u : Task, tasks[k]? = some u ∧ u.job = some j) : JobTasks (jobs.modify j f) tasks :=
  { h with
    bound := fun k u l hu hcu => by
      rw [List.length_modify]
      exact h.bound k u l hu hcu
    handle := fun l r k hr hk => by
      rw [List.getElem?_modify] at hr
      obtain ⟨r₀, hr₀, rfl⟩ := Option.map_eq_some_iff.mp hr
      split_ifs at hk with hl
      · subst hl
        rcases hhandle r₀ k hk with hold | hnew
        · exact h.handle j r₀ k hr₀ hold
        · exact hnew
      · exact h.handle l r₀ k hr₀ hk
    ended := fun k u l hu hjob hphase r hr => by
      rw [List.getElem?_modify] at hr
      obtain ⟨r₀, hr₀, rfl⟩ := Option.map_eq_some_iff.mp hr
      have hterm := h.ended k u l hu hjob hphase r₀ hr₀
      split_ifs
      · rw [hterminal r₀ hterm]
        exact hterm
      · exact hterm }

theorem extend (h : JobTasks jobs tasks) (j : ℕ) {f : JobRecord → JobRecord}
    (hf : ∀ r : JobRecord, r.Extends (f r)) : JobTasks (jobs.modify j f) tasks :=
  h.modify j (fun r => (hf r).terminal) (fun r _ hk => .inl ((hf r).handle_eq ▸ hk))

theorem addRequest (h : JobTasks jobs tasks) {task : Task} (hjob : task.job = none)
    (haccepted : task.phase = .accepted) : JobTasks jobs (tasks ++ [task]) := by
  have hold : ∀ (k : ℕ) (u : Task) (j : ℕ), (tasks ++ [task])[k]? = some u → u.Claims j →
      tasks[k]? = some u := by
    rintro k u j hu (hj | hphase)
    · rcases Pool.getElem?_add hu with ⟨-, rfl⟩ | hold
      · rw [hjob] at hj
        cases hj
      · exact hold
    · rcases Pool.getElem?_add hu with ⟨-, rfl⟩ | hold
      · rw [haccepted] at hphase
        cases hphase
      · exact hold
  have hkeep : ∀ {k l : ℕ}, (∃ u : Task, tasks[k]? = some u ∧ u.job = some l) →
      ∃ u : Task, (tasks ++ [task])[k]? = some u ∧ u.job = some l := by
    rintro k l ⟨u, hu, hl⟩
    exact ⟨u, Pool.getElem?_add_left hu, hl⟩
  constructor
  case unique =>
    intro k l u v j hu hv hcu hcv
    exact h.unique k l u v j (hold k u j hu hcu) (hold l v j hv hcv) hcu hcv
  case bound =>
    intro k u j hu hcu
    exact h.bound k u j (hold k u j hu hcu) hcu
  case request =>
    intro k u j hu hphase
    exact h.request k u j (hold k u j hu (.inr hphase)) hphase
  case spawned =>
    intro k u j l hu hphase
    rcases Pool.getElem?_add hu with ⟨-, rfl⟩ | hu
    · rw [haccepted] at hphase
      cases hphase
    · exact hkeep (h.spawned k u j l hu hphase)
  case handle =>
    intro j r k hr hk
    exact hkeep (h.handle j r k hr hk)
  case ended =>
    intro k u j hu hj hdone r hr
    exact h.ended k u j (hold k u j hu (.inl hj)) hj hdone r hr

theorem create (h : JobTasks jobs tasks) (ht : tasks[i]? = some t) (hjob : t.job = none)
    (session : String) :
    JobTasks (jobs ++ [.new session]) (tasks.set i { t with phase := .created jobs.length }) := by
  have hnew : ∀ j, ({ t with phase := .created jobs.length } : Task).Claims j →
    j = jobs.length := by
    rintro j (hj | hphase)
    · rw [hjob] at hj
      cases hj
    · exact (TaskPhase.created.inj hphase).symm
  have hjobs : ∀ (j : ℕ) (r : JobRecord), (jobs ++ [.new session])[j]? = some r →
      jobs[j]? = some r ∨ (j = jobs.length ∧ r = .new session) := by
    intro j r hr
    exact (Pool.getElem?_add hr).symm
  constructor
  case unique =>
    intro k l u v j hu hv hcu hcv
    rcases Pool.getElem?_set hu with ⟨rfl, rfl⟩ | ⟨-, holdu⟩ <;>
      rcases Pool.getElem?_set hv with ⟨rfl, rfl⟩ | ⟨-, holdv⟩
    · rfl
    · have hlt := h.bound l v j holdv hcv
      rw [hnew j hcu] at hlt
      omega
    · have hlt := h.bound k u j holdu hcu
      rw [hnew j hcv] at hlt
      omega
    · exact h.unique k l u v j holdu holdv hcu hcv
  case bound =>
    intro k u j hu hcu
    rw [List.length_append, List.length_singleton]
    rcases Pool.getElem?_set hu with ⟨-, rfl⟩ | ⟨-, hold⟩
    · rw [hnew j hcu]
      omega
    · have hlt := h.bound k u j hold hcu
      omega
  case request =>
    intro k u j hu hphase
    rcases Pool.getElem?_set hu with ⟨-, rfl⟩ | ⟨-, hold⟩
    · exact hjob
    · exact h.request k u j hold hphase
  case spawned =>
    intro k u j l hu hphase
    rcases Pool.getElem?_set hu with ⟨-, rfl⟩ | ⟨-, hold⟩
    · cases hphase
    · exact exists_set ht _ (h.spawned k u j l hold hphase)
  case handle =>
    intro j r k hr hk
    rcases hjobs j r hr with hold | ⟨-, rfl⟩
    · exact exists_set ht _ (h.handle j r k hold hk)
    · cases hk
  case ended =>
    intro k u j hu hj hphase r hr
    rcases Pool.getElem?_set hu with ⟨-, rfl⟩ | ⟨-, hold⟩
    · cases hphase
    · rcases hjobs j r hr with hr | ⟨rfl, -⟩
      · exact h.ended k u j hold hj hphase r hr
      · have hlt := h.bound k u jobs.length hold (.inl hj)
        omega

/-- A request spawns the task of the job it has created. -/
theorem spawn (h : JobTasks jobs tasks) (ht : tasks[i]? = some t) {j : ℕ}
    (hphase : t.phase = .created j) {task : Task} (hjob : task.job = some j)
    (haccepted : task.phase = .accepted) :
    JobTasks jobs (tasks.set i { t with phase := .spawned j tasks.length } ++ [task]) := by
  have hnone : ∀ l, ¬({ t with phase := .spawned j tasks.length } : Task).Claims l := by
    rintro l (hl | hl)
    · rw [h.request i t j ht hphase] at hl
      cases hl
    · cases hl
  have htask : ∀ l, task.Claims l → l = j := by
    rintro l (hl | hl)
    · exact Option.some.inj (hl.symm.trans hjob)
    · rw [haccepted] at hl
      cases hl
  have hlen : (tasks.set i { t with phase := .spawned j tasks.length }).length = tasks.length :=
    List.length_set
  have hother : ∀ (k : ℕ) (u : Task) (l : ℕ),
      (tasks.set i { t with phase := .spawned j tasks.length } ++ [task])[k]? = some u →
      u.Claims l → (k = tasks.length ∧ u = task ∧ l = j) ∨
        (tasks[k]? = some u ∧ l ≠ j) := by
    intro k u l hu hcu
    rcases Pool.getElem?_add hu with ⟨rfl, rfl⟩ | hset
    · exact .inl ⟨hlen, rfl, htask l hcu⟩
    · rcases Pool.getElem?_set hset with ⟨-, rfl⟩ | ⟨hk, hold⟩
      · exact (hnone l hcu).elim
      · refine .inr ⟨hold, ?_⟩
        rintro rfl
        exact hk (h.unique k i u t l hold ht hcu (.inr hphase))
  have hkeep : ∀ {k l : ℕ}, (∃ u : Task, tasks[k]? = some u ∧ u.job = some l) →
      ∃ u : Task, (tasks.set i { t with phase := .spawned j tasks.length } ++ [task])[k]? = some u ∧
        u.job = some l := by
    intro k l hu
    obtain ⟨u, hu, hl⟩ := exists_set ht (.spawned j tasks.length) hu
    exact ⟨u, Pool.getElem?_add_left hu, hl⟩
  constructor
  case unique =>
    intro k l u v m hu hv hcu hcv
    rcases hother k u m hu hcu with ⟨rfl, -, hm⟩ | ⟨holdu, hm⟩ <;>
      rcases hother l v m hv hcv with ⟨rfl, -, hm'⟩ | ⟨holdv, hm'⟩
    · rfl
    · exact (hm' hm).elim
    · exact (hm hm').elim
    · exact h.unique k l u v m holdu holdv hcu hcv
  case bound =>
    intro k u l hu hcu
    rcases hother k u l hu hcu with ⟨-, -, rfl⟩ | ⟨hold, -⟩
    · exact h.bound i t l ht (.inr hphase)
    · exact h.bound k u l hold hcu
  case request =>
    intro k u l hu hl
    rcases Pool.getElem?_add hu with ⟨-, rfl⟩ | hset
    · rw [haccepted] at hl
      cases hl
    · rcases Pool.getElem?_set hset with ⟨-, rfl⟩ | ⟨-, hold⟩
      · cases hl
      · exact h.request k u l hold hl
  case spawned =>
    intro k u l m hu hl
    rcases Pool.getElem?_add hu with ⟨-, rfl⟩ | hset
    · rw [haccepted] at hl
      cases hl
    · rcases Pool.getElem?_set hset with ⟨-, rfl⟩ | ⟨-, hold⟩
      · obtain ⟨rfl, rfl⟩ := TaskPhase.spawned.inj hl
        refine ⟨task, ?_, hjob⟩
        rw [List.getElem?_append_right (Nat.le_of_eq hlen), hlen, Nat.sub_self]
        rfl
      · exact hkeep (h.spawned k u l m hold hl)
  case handle =>
    intro l r k hr hk
    exact hkeep (h.handle l r k hr hk)
  case ended =>
    intro k u l hu hl hdone r hr
    rcases hother k u l hu (.inl hl) with ⟨-, rfl, -⟩ | ⟨hold, -⟩
    · rw [haccepted] at hdone
      cases hdone
    · exact h.ended k u l hold hl hdone r hr

/-- The end of a task and its job keeps the invariant. -/
theorem endTask {s : ApiState} (h : JobTasks s.jobs s.tasks) (ht : s.tasks[i]? = some t)
    {f : JobRecord → JobRecord} (hf : ∀ r : JobRecord, r.Extends (f r))
    (hterm : ∀ r, (f r).status.isTerminal = true) :
    JobTasks (s.endTask i t f).jobs (s.endTask i t f).tasks := by
  cases hjob : t.job with
  | none =>
    rw [ApiState.endTask_of_request hjob]
    exact h.setPhase ht .done rfl (by simp [hjob])
  | some j =>
    rw [ApiState.endTask, hjob]
    refine (h.extend j hf).setPhase ht .done rfl fun _ j' hj' r hr => ?_
    rw [hjob, Option.mem_some_iff] at hj'
    subst hj'
    rw [List.getElem?_modify] at hr
    obtain ⟨r₀, -, rfl⟩ := Option.map_eq_some_iff.mp hr
    rw [if_pos rfl]
    exact hterm r₀

/-- `mark_connecting` and `mark_running` keep the invariant. -/
theorem markJob {s : ApiState} (h : JobTasks s.jobs s.tasks) (ht : s.tasks[i]? = some t) {j : ℕ}
    (hjob : t.job = some j) (status : JobStatus) {phase : TaskPhase}
      (hplain : phase.isPlain = true) :
    JobTasks (s.markJob i t j (JobRecord.mark status) phase).jobs
      (s.markJob i t j (JobRecord.mark status) phase).tasks := by
  cases hr : s.jobs[j]? with
  | none =>
    rw [ApiState.markJob, hr]
    refine h.setPhase ht .done rfl fun _ j' hj' r hr' => ?_
    rw [hjob, Option.mem_some_iff] at hj'
    subst hj'
    rw [hr] at hr'
    cases hr'
  | some r =>
    rw [ApiState.markJob, hr]
    refine (h.extend j (JobRecord.extends_mark status)).setPhase ht _ ?_
      fun hdone j' hj' r' hr' => ?_
    · split_ifs
      · exact TaskPhase.starts_of_isPlain hplain
      · rfl
    · rw [hjob, Option.mem_some_iff] at hj'
      subst hj'
      rw [List.getElem?_modify, hr] at hr'
      obtain rfl := Option.some.inj hr'
      have hmark : (r.mark status).2 = false := by
        by_contra htrue
        rw [Bool.not_eq_false] at htrue
        rw [if_pos htrue] at hdone
        rw [hdone] at hplain
        cases hplain
      simpa using JobRecord.mark_false_terminal hmark

/-- **A step of a task keeps the jobs and their tasks together**, unless it aborts the
task. -/
theorem taskStep {s s' : ApiState} (h : JobTasks s.jobs s.tasks) (ht : s.tasks[i]? = some t)
    {e : TaskEvent} (hstep : s.taskStep i t e = some s') (habort : e ≠ .abort) :
    JobTasks s'.jobs s'.tasks := by
  have hgo : ∀ phase : TaskPhase, phase.starts = false → phase ≠ .done →
      JobTasks s.jobs (s.tasks.set i { t with phase := phase }) :=
    fun phase hstarts hdone => h.setPhase ht phase hstarts fun hphase => (hdone hphase).elim
  cases ApiState.taskMove_of_step hstep with
  | go _ hplain =>
    refine hgo _ (TaskPhase.starts_of_isPlain hplain) ?_
    rintro rfl
    cases hplain
  | fail _ hext hterm => exact h.endTask ht hext hterm
  | mark _ hjob hplain => exact h.markJob ht hjob _ hplain
  | dial | replaceDead | register | lookup | remove | closeAndRedial | startForward
  | registerForward | stopForwards => exact hgo _ rfl (by simp)
  | recheck => split_ifs <;> exact hgo _ rfl (by simp)
  | lookupNone | removeNone =>
    exact h.endTask ht JobRecord.extends_finishError JobRecord.finishError_terminal
  | closeAndEnd =>
    exact endTask (s := s.cancelForwards _) h ht JobRecord.extends_finishError
      JobRecord.finishError_terminal
  | createJob _ hjob => exact h.create ht hjob t.session
  | cancelJob _ hjob =>
    exact (h.extend _ JobRecord.extends_requestCancel).setPhase ht .done rfl (by simp [hjob])
  | spawnJob hphase => exact h.spawn ht hphase rfl rfl
  | attachHandle hphase =>
    refine (hgo .ready rfl (by simp)).modify _ (fun _ _ => rfl) fun r k hk => .inr ?_
    obtain rfl := Option.some.inj hk
    exact exists_set ht .ready (h.spawned i t _ _ ht hphase)
  | drop | cancelSeen =>
    exact h.endTask ht JobRecord.extends_finishCanceled JobRecord.finishCanceled_terminal
  | abort => exact (habort rfl).elim

end JobTasks

/-! ### Jobs that have ended -/

/-- The job `j` has ended, and its task has ended or not begun. -/
structure JobEnded (jobs : List JobRecord) (tasks : List Task) (j : ℕ) : Prop where
  terminal : ∃ r : JobRecord, jobs[j]? = some r ∧ r.status.isTerminal = true
  tasks_over : ∀ (i : ℕ) (t : Task), tasks[i]? = some t → t.job = some j →
    t.phase = .accepted ∨ t.phase = .done

namespace JobEnded

variable {jobs : List JobRecord} {tasks : List Task} {i : ℕ} {t : Task} {j : ℕ}

/-- A task that does not work on the job changes its phase. -/
theorem setPhase (h : JobEnded jobs tasks j) (phase : TaskPhase)
    (hphase : t.job = some j → phase = .done) :
    JobEnded jobs (tasks.set i { t with phase := phase }) j where
  terminal := h.terminal
  tasks_over k u hu hjob := by
    rcases Pool.getElem?_set hu with ⟨-, rfl⟩ | ⟨-, hold⟩
    · exact .inr (hphase hjob)
    · exact h.tasks_over k u hold hjob

theorem modify (h : JobEnded jobs tasks j) (k : ℕ) {f : JobRecord → JobRecord}
    (hterminal : ∀ r, r.status.isTerminal = true → (f r).status = r.status) :
    JobEnded (jobs.modify k f) tasks j where
  terminal := by
    obtain ⟨r, hr, hterm⟩ := h.terminal
    rw [List.getElem?_modify, hr]
    refine ⟨_, rfl, ?_⟩
    by_cases hk : k = j
    · simpa only [hk, if_true, hterminal r hterm] using hterm
    · simpa only [hk, if_false] using hterm
  tasks_over := h.tasks_over

theorem add (h : JobEnded jobs tasks j) (r : JobRecord) : JobEnded (jobs ++ [r]) tasks j where
  terminal := by
    obtain ⟨r', hr', hterm⟩ := h.terminal
    exact ⟨r', Pool.getElem?_add_left hr', hterm⟩
  tasks_over := h.tasks_over

theorem addTask (h : JobEnded jobs tasks j) {task : Task} (haccepted : task.phase = .accepted) :
    JobEnded jobs (tasks ++ [task]) j where
  terminal := h.terminal
  tasks_over k u hu hjob := by
    rcases Pool.getElem?_add hu with ⟨-, rfl⟩ | hold
    · exact .inl haccepted
    · exact h.tasks_over k u hold hjob

theorem endTask {s : ApiState} (h : JobEnded s.jobs s.tasks j) {f : JobRecord → JobRecord}
    (hf : ∀ r : JobRecord, r.Extends (f r)) :
    JobEnded (s.endTask i t f).jobs (s.endTask i t f).tasks j := by
  cases hjob : t.job with
  | none =>
    rw [ApiState.endTask_of_request hjob]
    exact h.setPhase .done (fun _ => rfl)
  | some k =>
    rw [ApiState.endTask, hjob]
    exact (h.modify k fun r => (hf r).terminal).setPhase .done (fun _ => rfl)

/-- **A job that has ended stays ended**, and its task never gets past
`mark_connecting`. -/
theorem taskStep {s s' : ApiState} (h : JobEnded s.jobs s.tasks j) (ht : s.tasks[i]? = some t)
    {e : TaskEvent} (hstep : s.taskStep i t e = some s') : JobEnded s'.jobs s'.tasks j := by
  have hother : ∀ {phase : TaskPhase}, t.phase = phase → phase ≠ .accepted → phase ≠ .done →
      t.job ≠ some j := by
    rintro phase hphase hacc hdone hjob
    rcases h.tasks_over i t ht hjob with hover | hover
    · exact hacc (hphase.symm.trans hover)
    · exact hdone (hphase.symm.trans hover)
  cases ApiState.taskMove_of_step hstep with
  | go hfree _ _ haccess =>
    refine h.setPhase _ fun hjob => ?_
    rcases h.tasks_over i t ht hjob with hover | hover
    · rw [(haccess hover).2] at hjob
      cases hjob
    · rw [hover] at hfree
      cases hfree
  | fail _ hext => exact h.endTask hext
  | @mark _ k status phase hfree hjob =>
    cases hr : s.jobs[k]? with
    | none =>
      rw [ApiState.markJob, hr]
      exact h.setPhase .done (fun _ => rfl)
    | some r =>
      rw [ApiState.markJob, hr]
      refine (h.modify k fun r => (JobRecord.extends_mark status r).terminal).setPhase _ ?_
      intro hj
      obtain rfl := Option.some.inj (hjob.symm.trans hj)
      obtain ⟨r', hr', hterm⟩ := h.terminal
      obtain rfl := Option.some.inj (hr.symm.trans hr')
      rw [if_neg]
      rw [JobRecord.mark_false_of_canceled (.inr hterm)]
      exact Bool.false_ne_true
  | dial hphase | replaceDead hphase | register hphase | recheck hphase | lookup hphase
  | remove hphase | closeAndRedial hphase | startForward hphase | registerForward hphase
  | stopForwards hphase =>
    exact h.setPhase _ fun hjob => (hother hphase (by simp) (by simp) hjob).elim
  | lookupNone | removeNone => exact h.endTask JobRecord.extends_finishError
  | closeAndEnd => exact endTask (s := s.cancelForwards _) h JobRecord.extends_finishError
  | createJob hphase hjob =>
    exact (h.setPhase _ fun hj => (hother hphase (by simp) (by simp) hj).elim).add _
  | cancelJob =>
    exact (h.modify _ fun r => (JobRecord.extends_requestCancel r).terminal).setPhase .done
      (fun _ => rfl)
  | spawnJob hphase =>
    exact (h.setPhase _ fun hj => (hother hphase (by simp) (by simp) hj).elim).addTask rfl
  | attachHandle hphase =>
    exact (h.setPhase _ fun hj => (hother hphase (by simp) (by simp) hj).elim).modify _
      fun _ _ => rfl
  | drop | cancelSeen => exact h.endTask JobRecord.extends_finishCanceled
  | abort => exact h.setPhase .done (fun _ => rfl)

end JobEnded

end Api
end HelmSsh
