/-
# The registry of the API jobs

`JobRegistry` of `src-tauri/src/api_server/jobs.rs`: `create`, `evict_oldest_terminal` and
`prune_expired`, which `get`, `list` and `cancel` call as well.  `create` runs under
`mutation_lock`; the map and each record have locks of their own, which are taken for one
step at a time, so the calls interleave with each other and with the operations on the records
(`HelmSsh.Api.JobCalls`) at every `await`.

A job id is new, and is modelled by the place of the record among all records so far.

* `limits_of_run` — at most 100 jobs are retained, at most 4 of a session are active, and a
  job that leaves the registry has ended.
-/

import HelmSsh.Api.JobCalls

namespace HelmSsh
namespace Api

/-! ### The records -/

/-- The time of completion is set when the job has ended. -/
def JobState.Settled (s : JobState) : Prop :=
  s.completedAt.isSome = s.status.isTerminal

/-- A write in a job that has not ended leaves it settled. -/
theorem JobState.Settled.write {s : JobState} (h : s.Settled)
    (hactive : s.status.isTerminal = false) (status : JobStatus) (event : EventKind)
    (stamp : Stamp) (hint : Option ℕ) : (s.write status event stamp hint).1.Settled := by
  unfold JobState.Settled at h ⊢
  rw [JobState.write_completedAt, JobState.write_status]
  split_ifs with hterminal
  · exact hterminal.symm
  · rw [h, hactive]
    exact (Bool.not_eq_true _ ▸ hterminal : status.isTerminal = false).symm

/-- **A step of a record** keeps it settled, and the job ended if it has ended. -/
theorem System.settled_of_step {s s' : System} {e : RecordEvent} (h : s.record.state.Settled)
    (hstep : s.step e = some s') : s'.record.state.Settled ∧
      (s.record.state.status.isTerminal = true → s'.record.state.status.isTerminal = true) := by
  obtain ⟨op, -, rfl⟩ | ⟨i, stamp, c, -, -, hreturned, rfl⟩ := System.step_cases hstep
  · exact ⟨h, id⟩
  have hsection := Call.next_section stamp s.record hreturned
  generalize (c.next stamp s.record).1 = r at hsection ⊢
  generalize (c.next stamp s.record).2 = c' at hsection ⊢
  cases hsection with
  | quiet => exact ⟨h, id⟩
  | signal => exact ⟨h, id⟩
  | broadcast => exact ⟨h, id⟩
  | @update u hcancel hactive =>
    obtain ⟨hint, hwrite⟩ := u.write_eq stamp s.record.state
    refine ⟨?_, fun hterminal => absurd (hactive.symm.trans hterminal) Bool.false_ne_true⟩
    show (u.write stamp s.record.state).1.Settled
    rw [hwrite]
    exact h.write hactive _ _ _ _
  | request hactive | finish hactive =>
    exact ⟨h.write hactive _ _ _ _,
      fun hterminal => absurd (hactive.symm.trans hterminal) Bool.false_ne_true⟩

namespace JobRegistry

/-- `MAX_RETAINED_JOBS`. -/
def maxRetainedJobs : ℕ := 100

/-- `MAX_ACTIVE_JOBS_PER_SESSION`. -/
def maxActiveJobsPerSession : ℕ := 4

/-- `COMPLETED_JOB_RETENTION`, in seconds. -/
def completedJobRetention : ℕ := 30 * 60

/-- `JobRecord`, as far as the registry looks at it. -/
structure Job where
  sessionId : String
  createdAt : String
  system : System
  deriving DecidableEq

/-- The job has ended. -/
def Job.isTerminal (job : Job) : Bool :=
  job.system.record.state.status.isTerminal

/-- `is_active_for_session`. -/
def Job.isActiveForSession (job : Job) (sessionId : String) : Bool :=
  job.sessionId = sessionId && !job.isTerminal

/-- `completed_at_instant` is set, and the retention has elapsed. -/
def Job.expired (job : Job) (now : ℕ) : Bool :=
  job.system.record.state.completedAt.any fun completed =>
    completedJobRetention ≤ now - completed

/-- `JobRegistryError`. -/
inductive Error
  | notFound
  | capacity (message : String)
  | conflict (message : String)
  deriving DecidableEq

/-- What `create` is called with, and what it takes from outside: the time, and the size of the
first event. -/
structure Request where
  sessionId : String
  createdAt : String
  initialBytes : ℕ
  deriving DecidableEq

/-- Where a call waits. -/
inductive Phase
  /-- For `mutation_lock`. -/
  | waiting
  /-- `prune_expired`, before it reads the map. -/
  | reading
  | pruning (todo expired : List ℕ)
  /-- `prune_expired`, before it writes the map. -/
  | removing (expired : List ℕ)
  /-- `create`, before it reads the map. -/
  | listing
  | evicting (records todo : List ℕ) (candidate : Option (ℕ × String))
  /-- `evict_oldest_terminal`, before it writes the map. -/
  | replacing (records : List ℕ) (jobId : ℕ)
  | counting (todo : List ℕ) (active : ℕ)
  | inserting
  | done (result : Except Error (Option ℕ))
  | dropped
  deriving DecidableEq

/-- A call of `create`, or of `get`, `list` or `cancel`. -/
structure Task where
  create : Option Request
  phase : Phase
  deriving DecidableEq

/-- The call holds `mutation_lock`. -/
def Task.holds (t : Task) : Bool :=
  t.create.isSome && match t.phase with
    | .waiting => false
    | .done _ => false
    | .dropped => false
    | _ => true

/-- The registry with the records and the calls. -/
structure State where
  /-- Every record so far. -/
  jobs : List Job
  /-- The keys of the map. -/
  retained : List ℕ
  mutationLock : Option ℕ
  tasks : List Task
  deriving DecidableEq

/-- A new call, a step of a call at some time, its cancellation, or an operation on a record. -/
inductive Event
  | create (request : Request)
  | lookup
  | task (i : ℕ) (now : ℕ)
  | drop (i : ℕ)
  | job (jobId : ℕ) (event : RecordEvent)
  deriving DecidableEq

namespace State

/-- The `i`-th call goes on. -/
def goTo (s : State) (i : ℕ) (t : Task) (phase : Phase) : State :=
  { s with tasks := s.tasks.set i { t with phase } }

/-- `create` returns an error and releases `mutation_lock`. -/
def refuse (s : State) (i : ℕ) (t : Task) (message : String) : State :=
  { s.goTo i t (.done (.error (.capacity message))) with mutationLock := none }

/-- The candidate of `evict_oldest_terminal` after it has looked at a record. -/
def candidate (jobId : ℕ) (job : Job) (candidate : Option (ℕ × String)) :
    Option (ℕ × String) :=
  if job.isTerminal && candidate.all (fun oldest => job.createdAt < oldest.2) then
    some (jobId, job.createdAt)
  else candidate

/-- The insertion of a new record, and the end of `create`. -/
def insert (s : State) (i : ℕ) (t : Task) (request : Request) : State :=
  { jobs := s.jobs ++ [⟨request.sessionId, request.createdAt, .new request.initialBytes⟩]
    retained := s.retained ++ [s.jobs.length]
    mutationLock := none
    tasks := s.tasks.set i { t with phase := .done (.ok (some s.jobs.length)) } }

/-- A step of a call. -/
def taskStep (s : State) (i : ℕ) (t : Task) (now : ℕ) : Option State :=
  match t.phase with
  | .waiting =>
    if s.mutationLock = none then some { s.goTo i t .reading with mutationLock := some i }
    else none
  | .reading => some (s.goTo i t (.pruning s.retained []))
  | .pruning [] expired => some (s.goTo i t (.removing expired))
  | .pruning (id :: todo) expired => s.jobs[id]?.map fun job =>
    s.goTo i t (.pruning todo (if job.expired now then expired ++ [id] else expired))
  | .removing expired =>
    some { s.goTo i t (if t.create.isSome then .listing else .done (.ok none)) with
      retained := s.retained.filter (· ∉ expired) }
  | .listing =>
    some (s.goTo i t (if maxRetainedJobs ≤ s.retained.length
      then .evicting s.retained s.retained none
      else .counting s.retained 0))
  | .evicting records (id :: todo) oldest => s.jobs[id]?.map fun job =>
    s.goTo i t (.evicting records todo (candidate id job oldest))
  | .evicting _ [] none => some (s.refuse i t "任务记录已达到上限 100")
  | .evicting records [] (some oldest) => some (s.goTo i t (.replacing records oldest.1))
  | .replacing records id =>
    if id ∈ s.retained then
      some { s.goTo i t (.counting records 0) with retained := s.retained.filter (· ≠ id) }
    else some (s.refuse i t "任务记录已达到上限 100")
  | .counting (id :: todo) active => s.jobs[id]?.bind fun job => t.create.map fun request =>
    s.goTo i t (.counting todo
      (if job.isActiveForSession request.sessionId then active + 1 else active))
  | .counting [] active =>
    if maxActiveJobsPerSession ≤ active then some (s.refuse i t "会话同时最多运行 4 个任务")
    else some (s.goTo i t .inserting)
  | .inserting => t.create.map (s.insert i t)
  | .done _ => none
  | .dropped => none

/-- The caller of the `i`-th call goes away. -/
def dropTask (s : State) (i : ℕ) (t : Task) : Option State :=
  match t.phase with
  | .done _ => none
  | .dropped => none
  | _ => some { s.goTo i t .dropped with
      mutationLock := if t.holds then none else s.mutationLock }

/-- One event. -/
def step (s : State) : Event → Option State
  | .create request => some { s with tasks := s.tasks ++ [⟨some request, .waiting⟩] }
  | .lookup => some { s with tasks := s.tasks ++ [⟨none, .reading⟩] }
  | .task i now => s.tasks[i]?.bind fun t => s.taskStep i t now
  | .drop i => s.tasks[i]?.bind fun t => s.dropTask i t
  | .job id event => s.jobs[id]?.bind fun job => (job.system.step event).map fun system =>
    { s with jobs := s.jobs.set id { job with system } }

/-- The job has ended. -/
def Terminal (s : State) (id : ℕ) : Prop :=
  ∃ job, s.jobs[id]? = some job ∧ job.isTerminal = true

/-- The job is one of the session and has not ended. -/
def activeIn (s : State) (sessionId : String) (id : ℕ) : Bool :=
  s.jobs[id]?.any fun job => job.isActiveForSession sessionId

/-- How many jobs of the session are active. -/
def activeCount (s : State) (sessionId : String) : ℕ :=
  s.retained.countP (s.activeIn sessionId)

end State

/-- The machine of the registry. -/
def registry : Machine State Event where
  init := { jobs := [], retained := [], mutationLock := none, tasks := [] }
  step := State.step

/-! ### Counting -/

/-- One more element that is left to count accounts for one. -/
theorem countP_left_le {l : List ℕ} (todo : List ℕ) (id : ℕ) (p : ℕ → Bool) (hl : l.Nodup) :
    l.countP (fun x => decide (x ∉ todo) && p x) ≤
      l.countP (fun x => decide (x ∉ id :: todo) && p x) + (if p id then 1 else 0) := by
  induction l with
  | nil => exact Nat.zero_le _
  | cons x l ih =>
    obtain ⟨hx, hl⟩ := List.nodup_cons.mp hl
    rw [List.countP_cons, List.countP_cons]
    by_cases hxid : x = id
    · subst hxid
      have hrest : l.countP (fun y => decide (y ∉ todo) && p y) =
          l.countP fun y => decide (y ∉ x :: todo) && p y := by
        refine List.countP_congr fun y hy => ?_
        have hne : y ≠ x := fun h => hx (h ▸ hy)
        simp [hne]
      rw [hrest]
      cases hp : p x with
      | false => simp
      | true =>
        simp only [Bool.and_true, if_true]
        split_ifs <;> omega
    · have hsame : (decide (x ∉ todo) && p x) = (decide (x ∉ id :: todo) && p x) := by
        simp [hxid]
      have := ih hl
      rw [hsame]
      omega

/-! ### The invariant -/

/-- What a call knows in its phase. -/
def Task.Ok (s : State) (t : Task) : Prop :=
  match t.phase with
  | .pruning _ expired => ∀ id ∈ expired, s.Terminal id
  | .removing expired => ∀ id ∈ expired, s.Terminal id
  | .listing => t.create.isSome
  | .evicting records _ oldest => t.create.isSome ∧ s.retained ⊆ records ∧
      ∀ id text, oldest = some (id, text) → s.Terminal id
  | .replacing records id => t.create.isSome ∧ s.retained ⊆ records ∧ s.Terminal id
  | .counting todo active => t.create.isSome ∧ s.retained.length < maxRetainedJobs ∧
      ∀ request, t.create = some request →
        s.retained.countP (fun id => decide (id ∉ todo) && s.activeIn request.sessionId id) ≤
          active
  | .inserting => t.create.isSome ∧ s.retained.length < maxRetainedJobs ∧
      ∀ request, t.create = some request →
        s.activeCount request.sessionId < maxActiveJobsPerSession
  | _ => True

/-- **The invariant of the registry.** -/
structure Inv (s : State) : Prop where
  nodup : s.retained.Nodup
  valid : ∀ id ∈ s.retained, id < s.jobs.length
  length_le : s.retained.length ≤ maxRetainedJobs
  active_le : ∀ sessionId, s.activeCount sessionId ≤ maxActiveJobsPerSession
  settled : ∀ (id : ℕ) (job : Job), s.jobs[id]? = some job → job.system.record.state.Settled
  holder : ∀ (i : ℕ) (t : Task), s.tasks[i]? = some t → t.holds = true →
    s.mutationLock = some i
  tasks : ∀ (i : ℕ) (t : Task), s.tasks[i]? = some t → t.Ok s

/-- **The registry has shrunk**: nothing was added to the map, an ended job has stayed so, and
no retained job has become active. -/
structure Shrinks (s s' : State) : Prop where
  retained : s'.retained.Sublist s.retained
  terminal : ∀ id, s.Terminal id → s'.Terminal id
  active : ∀ sessionId, ∀ id ∈ s'.retained, s'.activeIn sessionId id = true →
    s.activeIn sessionId id = true

namespace Shrinks

variable {s s' : State}

theorem countP_le (h : Shrinks s s') (sessionId : String) (p : ℕ → Bool) :
    s'.retained.countP (fun id => p id && s'.activeIn sessionId id) ≤
      s.retained.countP fun id => p id && s.activeIn sessionId id :=
  calc
    s'.retained.countP (fun id => p id && s'.activeIn sessionId id)
      ≤ s'.retained.countP fun id => p id && s.activeIn sessionId id := by
        refine List.countP_mono_left fun id hid hp => ?_
        rw [Bool.and_eq_true] at hp ⊢
        exact ⟨hp.1, h.active sessionId id hid hp.2⟩
    _ ≤ _ := h.retained.countP_le

theorem activeCount_le (h : Shrinks s s') (sessionId : String) :
    s'.activeCount sessionId ≤ s.activeCount sessionId := by
  have hle := h.countP_le sessionId fun _ => true
  simp only [Bool.true_and] at hle
  exact hle

theorem ok (h : Shrinks s s') {t : Task} (ht : t.Ok s) : t.Ok s' := by
  have hlength := h.retained.length_le
  unfold Task.Ok at ht ⊢
  split at ht
  case h_1 => exact fun id hid => h.terminal id (ht id hid)
  case h_2 => exact fun id hid => h.terminal id (ht id hid)
  case h_3 => exact ht
  case h_4 =>
    exact ⟨ht.1, List.Subset.trans h.retained.subset ht.2.1,
      fun id text hid => h.terminal id (ht.2.2 id text hid)⟩
  case h_5 => exact ⟨ht.1, List.Subset.trans h.retained.subset ht.2.1, h.terminal _ ht.2.2⟩
  case h_6 =>
    refine ⟨ht.1, Nat.lt_of_le_of_lt hlength ht.2.1, fun request hrequest => ?_⟩
    exact Nat.le_trans (h.countP_le _ _) (ht.2.2 request hrequest)
  case h_7 =>
    refine ⟨ht.1, Nat.lt_of_le_of_lt hlength ht.2.1, fun request hrequest => ?_⟩
    exact Nat.lt_of_le_of_lt (h.activeCount_le _) (ht.2.2 request hrequest)
  case h_8 => trivial

end Shrinks

namespace Inv

variable {s : State} {i : ℕ} {t : Task}

theorem init : Inv registry.init where
  nodup := List.nodup_nil
  valid _ hid := absurd hid List.not_mem_nil
  length_le := Nat.zero_le _
  active_le _ := Nat.zero_le _
  settled _ _ hjob := by cases hjob
  holder _ _ ht := by cases ht
  tasks _ _ ht := by cases ht

/-- **A step of a call that adds no job**: the registry shrinks, the call knows what its new
phase asks for, and the lock is its own as long as it holds it. -/
theorem shrink (h : Inv s) (ht : s.tasks[i]? = some t) {t' : Task} {retained : List ℕ}
    {lock : Option ℕ} (hsub : retained.Sublist s.retained)
    (hlock : t'.holds = true → lock = some i)
    (hothers : lock = s.mutationLock ∨ s.mutationLock = none ∨ t.holds = true)
    (hok : t'.Ok { s with retained := retained, mutationLock := lock,
                          tasks := s.tasks.set i t' }) :
    Inv { s with retained := retained, mutationLock := lock, tasks := s.tasks.set i t' } := by
  have hshrinks : Shrinks s
      { s with retained := retained, mutationLock := lock, tasks := s.tasks.set i t' } :=
    ⟨hsub, fun _ hid => hid, fun _ _ _ hactive => hactive⟩
  refine ⟨h.nodup.sublist hsub, fun id hid => h.valid id (hsub.subset hid),
    Nat.le_trans hsub.length_le h.length_le,
    fun sessionId => Nat.le_trans (hshrinks.activeCount_le sessionId) (h.active_le sessionId),
    h.settled, fun j u hu hholds => ?_, fun j u hu => ?_⟩
  · rcases Pool.getElem?_set hu with ⟨rfl, rfl⟩ | ⟨hji, hu⟩
    · exact hlock hholds
    · have hown := h.holder j u hu hholds
      rcases hothers with hsame | hfree | hheld
      · exact hsame.trans hown
      · rw [hfree] at hown
        cases hown
      · rw [h.holder i t ht hheld] at hown
        exact absurd (Option.some.inj hown).symm hji
  · rcases Pool.getElem?_set hu with ⟨rfl, rfl⟩ | ⟨-, hu⟩
    · exact hok
    · exact hshrinks.ok (h.tasks j u hu)

theorem goTo (h : Inv s) (ht : s.tasks[i]? = some t) {phase : Phase}
    (hholds : ({ t with phase } : Task).holds = true → t.holds = true)
    (hok : ({ t with phase } : Task).Ok s) : Inv (s.goTo i t phase) :=
  h.shrink ht (List.Sublist.refl _) (fun hheld => h.holder i t ht (hholds hheld)) (.inl rfl) hok

theorem refuse (h : Inv s) (ht : s.tasks[i]? = some t) (hholds : t.holds = true)
    (message : String) : Inv (s.refuse i t message) := by
  refine h.shrink ht (List.Sublist.refl _) (fun hheld => ?_) (.inr (.inr hholds)) trivial
  rw [Task.holds, Bool.and_false] at hheld
  cases hheld

theorem terminal_of_expired (h : Inv s) {id now : ℕ} {job : Job} (hjob : s.jobs[id]? = some job)
    (hexpired : job.expired now = true) : s.Terminal id := by
  obtain ⟨completed, hcompleted, -⟩ := Option.any_eq_true _ _ |>.mp hexpired
  refine ⟨job, hjob, ?_⟩
  have hsettled := h.settled id job hjob
  unfold JobState.Settled at hsettled
  rw [hcompleted] at hsettled
  exact hsettled.symm

/-- **The insertion of a new job**: there is room for it, and among the active jobs of its
session as well. -/
theorem insert (h : Inv s) (ht : s.tasks[i]? = some t) (hholds : t.holds = true)
    {request : Request} (hroom : s.retained.length < maxRetainedJobs)
    (hactive : s.activeCount request.sessionId < maxActiveJobsPerSession) :
    Inv (s.insert i t request) := by
  have hold : ∀ id < s.jobs.length, (s.insert i t request).jobs[id]? = s.jobs[id]? :=
    fun id hid => List.getElem?_append_left hid
  have hsame : ∀ sessionId, ∀ id ∈ s.retained,
      (s.insert i t request).activeIn sessionId id = s.activeIn sessionId id := by
    intro sessionId id hid
    unfold State.activeIn
    rw [hold id (h.valid id hid)]
  have hcount : ∀ sessionId, s.retained.countP ((s.insert i t request).activeIn sessionId) =
      s.activeCount sessionId := fun sessionId =>
    List.countP_congr fun id hid => by rw [hsame sessionId id hid]
  have hterminal : ∀ id, s.Terminal id → (s.insert i t request).Terminal id := by
    rintro id ⟨job, hjob, hended⟩
    exact ⟨job, Pool.getElem?_add_left hjob, hended⟩
  refine ⟨?_, ?_, ?_, fun sessionId => ?_, ?_, fun j u hu hheld => ?_, fun j u hu => ?_⟩
  · refine List.nodup_append.mpr ⟨h.nodup, by simp, ?_⟩
    rintro id hid id' hid' rfl
    rw [List.mem_singleton] at hid'
    have hlt := h.valid id hid
    omega
  · intro id hid
    show id < (s.jobs ++ [_]).length
    rw [List.length_append, List.length_singleton]
    rcases List.mem_append.mp hid with hid | hid
    · have hlt := h.valid id hid
      omega
    · rw [List.mem_singleton] at hid
      omega
  · show (s.retained ++ [_]).length ≤ _
    rw [List.length_append, List.length_singleton]
    exact hroom
  · show (s.retained ++ [s.jobs.length]).countP _ ≤ _
    rw [List.countP_append, hcount, List.countP_singleton]
    have hle := h.active_le sessionId
    by_cases hsession : request.sessionId = sessionId
    · subst hsession
      split_ifs <;> omega
    · have hnot : (s.insert i t request).activeIn sessionId s.jobs.length = false := by
        unfold State.activeIn
        show Option.any _ (s.jobs ++ [_])[s.jobs.length]? = false
        rw [Pool.getElem?_added, Option.any_some]
        unfold Job.isActiveForSession
        rw [decide_eq_false hsession, Bool.false_and]
      rw [hnot, if_neg Bool.false_ne_true]
      exact hle
  · intro id job hjob
    rcases Pool.getElem?_add hjob with ⟨-, rfl⟩ | hjob
    · rfl
    · exact h.settled id job hjob
  · rcases Pool.getElem?_set hu with ⟨-, rfl⟩ | ⟨hji, hu⟩
    · rw [Task.holds, Bool.and_false] at hheld
      cases hheld
    · have hown := h.holder j u hu hheld
      rw [h.holder i t ht hholds] at hown
      exact absurd (Option.some.inj hown).symm hji
  -- Another call is not in a phase that looks at the map: these hold the lock.
  · rcases Pool.getElem?_set hu with ⟨-, rfl⟩ | ⟨hji, hu⟩
    · trivial
    · have hother : u.holds = false := by
        by_contra hheld
        have hown := h.holder j u hu (Bool.not_eq_false _ ▸ hheld)
        rw [h.holder i t ht hholds] at hown
        exact absurd (Option.some.inj hown).symm hji
      have hu := h.tasks j u hu
      unfold Task.Ok at hu ⊢
      split at hu
      case h_1 => exact fun id hid => hterminal id (hu id hid)
      case h_2 => exact fun id hid => hterminal id (hu id hid)
      case h_3 => exact hu
      case h_4 hphase | h_5 hphase | h_6 hphase | h_7 hphase =>
        rw [Task.holds, hphase, hu.1] at hother
        cases hother
      case h_8 => trivial

/-- **Each step of a call keeps the invariant.** -/
theorem taskStep (h : Inv s) (ht : s.tasks[i]? = some t) {now : ℕ} {s' : State}
    (hstep : s.taskStep i t now = some s') : Inv s' := by
  have hok := h.tasks i t ht
  unfold Task.Ok at hok
  unfold State.taskStep at hstep
  split at hstep
  case h_1 hphase =>
    split_ifs at hstep with hfree
    obtain rfl := Option.some.inj hstep
    exact h.shrink ht (List.Sublist.refl _) (fun _ => rfl) (.inr (.inl hfree)) trivial
  case h_2 hphase =>
    obtain rfl := Option.some.inj hstep
    refine h.goTo ht (fun hheld => ?_) (fun id hid => absurd hid List.not_mem_nil)
    rw [Task.holds, hphase]
    exact hheld
  case h_3 expired hphase =>
    obtain rfl := Option.some.inj hstep
    rw [hphase] at hok
    refine h.goTo ht (fun hheld => ?_) hok
    rw [Task.holds, hphase]
    exact hheld
  case h_4 id todo expired hphase =>
    obtain ⟨job, hjob, rfl⟩ := Option.map_eq_some_iff.mp hstep
    rw [hphase] at hok
    refine h.goTo ht (fun hheld => ?_) fun id' hid' => ?_
    · rw [Task.holds, hphase]
      exact hheld
    · split_ifs at hid' with hexpired
      · rcases List.mem_append.mp hid' with hid' | hid'
        · exact hok id' hid'
        · rw [List.mem_singleton.mp hid']
          exact h.terminal_of_expired hjob hexpired
      · exact hok id' hid'
  case h_5 expired hphase =>
    obtain rfl := Option.some.inj hstep
    refine h.shrink ht List.filter_sublist (fun hheld => h.holder i t ht ?_) (.inl rfl) ?_
    · rw [Task.holds, hphase]
      cases hcreate : t.create with
      | none => rw [Task.holds, hcreate] at hheld; cases hheld
      | some request => rfl
    · cases hcreate : t.create with
      | none => trivial
      | some request => rfl
  case h_6 hphase =>
    obtain rfl := Option.some.inj hstep
    rw [hphase] at hok
    have hheld : t.holds = true := by
      rw [Task.holds, hphase, hok]
      rfl
    refine h.goTo ht (fun _ => hheld) ?_
    split_ifs with hfull
    · exact ⟨hok, List.Subset.refl _, fun _ _ hnone => by cases hnone⟩
    · refine ⟨hok, Nat.lt_of_not_le hfull, fun request _ => Nat.le_of_eq ?_⟩
      refine List.countP_eq_zero.mpr fun id hid => ?_
      simp [hid]
  case h_7 records id todo oldest hphase =>
    obtain ⟨job, hjob, rfl⟩ := Option.map_eq_some_iff.mp hstep
    rw [hphase] at hok
    refine h.goTo ht (fun hheld => ?_) ⟨hok.1, hok.2.1, fun id' text hcandidate => ?_⟩
    · rw [Task.holds, hphase]
      exact hheld
    · unfold State.candidate at hcandidate
      split_ifs at hcandidate with hbest
      · obtain ⟨rfl, -⟩ := Prod.mk.inj (Option.some.inj hcandidate)
        exact ⟨job, hjob, ((Bool.and_eq_true _ _).mp hbest).1⟩
      · exact hok.2.2 id' text hcandidate
  case h_8 records hphase =>
    obtain rfl := Option.some.inj hstep
    rw [hphase] at hok
    refine h.refuse ht ?_ _
    rw [Task.holds, hphase, hok.1]
    rfl
  case h_9 records oldest hphase =>
    obtain rfl := Option.some.inj hstep
    rw [hphase] at hok
    refine h.goTo ht (fun hheld => ?_) ⟨hok.1, hok.2.1, hok.2.2 oldest.1 oldest.2 rfl⟩
    rw [Task.holds, hphase]
    exact hheld
  case h_10 records id hphase =>
    rw [hphase] at hok
    have hheld : t.holds = true := by
      rw [Task.holds, hphase, hok.1]
      rfl
    split_ifs at hstep with hmem
    · obtain rfl := Option.some.inj hstep
      refine h.shrink ht List.filter_sublist (fun _ => h.holder i t ht hheld) (.inl rfl)
        ⟨hok.1, ?_, fun request _ => Nat.le_of_eq ?_⟩
      · have hlt : (s.retained.filter fun id' => decide (id' ≠ id)).length < s.retained.length :=
          List.length_filter_lt_length_iff_exists.mpr ⟨id, hmem, by simp⟩
        exact Nat.lt_of_lt_of_le hlt h.length_le
      · refine List.countP_eq_zero.mpr fun id' hid' => ?_
        have hin := hok.2.1 (List.mem_of_mem_filter hid')
        simp [hin]
    · obtain rfl := Option.some.inj hstep
      exact h.refuse ht hheld _
  case h_11 id todo active hphase =>
    obtain ⟨job, hjob, hstep⟩ := Option.bind_eq_some_iff.mp hstep
    obtain ⟨request, hrequest, rfl⟩ := Option.map_eq_some_iff.mp hstep
    rw [hphase] at hok
    refine h.goTo ht (fun hheld => ?_) ⟨hok.1, hok.2.1, fun request' hrequest' => ?_⟩
    · rw [Task.holds, hphase]
      exact hheld
    · obtain rfl := Option.some.inj (hrequest.symm.trans hrequest')
      have hcounted := hok.2.2 request hrequest
      have hleft := countP_left_le todo id (s.activeIn request.sessionId) h.nodup
      have hactive : s.activeIn request.sessionId id =
          job.isActiveForSession request.sessionId := by
        rw [State.activeIn, hjob, Option.any_some]
      rw [hactive] at hleft
      refine Nat.le_trans hleft ?_
      split_ifs at hleft ⊢ <;> omega
  case h_12 active hphase =>
    rw [hphase] at hok
    have hheld : t.holds = true := by
      rw [Task.holds, hphase, hok.1]
      rfl
    split_ifs at hstep with hfull
    · obtain rfl := Option.some.inj hstep
      exact h.refuse ht hheld _
    · obtain rfl := Option.some.inj hstep
      refine h.goTo ht (fun _ => hheld) ⟨hok.1, hok.2.1, fun request hrequest => ?_⟩
      have hcounted := hok.2.2 request hrequest
      simp only [List.not_mem_nil, not_false_eq_true, decide_true, Bool.true_and] at hcounted
      exact Nat.lt_of_le_of_lt hcounted (Nat.lt_of_not_le hfull)
  case h_13 hphase =>
    obtain ⟨request, hrequest, rfl⟩ := Option.map_eq_some_iff.mp hstep
    rw [hphase] at hok
    refine h.insert ht ?_ hok.2.1 (hok.2.2 request hrequest)
    rw [Task.holds, hphase, hok.1]
    rfl
  case h_14 => cases hstep
  case h_15 => cases hstep

theorem dropTask (h : Inv s) (ht : s.tasks[i]? = some t) {s' : State}
    (hstep : s.dropTask i t = some s') : Inv s' := by
  unfold State.dropTask at hstep
  split at hstep
  case h_1 => cases hstep
  case h_2 => cases hstep
  case h_3 =>
    obtain rfl := Option.some.inj hstep
    refine h.shrink ht (List.Sublist.refl _) (fun hheld => ?_) ?_ trivial
    · rw [Task.holds, Bool.and_false] at hheld
      cases hheld
    · cases hholds : t.holds with
      | true => exact .inr (.inr rfl)
      | false => exact .inl rfl

theorem arrive (h : Inv s) {t : Task} (hholds : t.holds = false) (hok : t.Ok s) :
    Inv { s with tasks := s.tasks ++ [t] } := by
  refine ⟨h.nodup, h.valid, h.length_le, h.active_le, h.settled, fun j u hu hheld => ?_,
    fun j u hu => ?_⟩
  · rcases Pool.getElem?_add hu with ⟨-, rfl⟩ | hu
    · rw [hholds] at hheld
      cases hheld
    · exact h.holder j u hu hheld
  · rcases Pool.getElem?_add hu with ⟨-, rfl⟩ | hu
    · exact hok
    · exact h.tasks j u hu

theorem jobStep (h : Inv s) {id : ℕ} {job : Job} (hjob : s.jobs[id]? = some job)
    {event : RecordEvent} {system : System} (hstep : job.system.step event = some system) :
    Inv { s with jobs := s.jobs.set id { job with system } } ∧
      Shrinks s { s with jobs := s.jobs.set id { job with system } } := by
  obtain ⟨hsettled, hended⟩ := System.settled_of_step (h.settled id job hjob) hstep
  have hshrinks : Shrinks s { s with jobs := s.jobs.set id { job with system } } := by
    refine ⟨List.Sublist.refl _, fun id' hid' => ?_, fun sessionId id' hid' hactive => ?_⟩
    · obtain ⟨job', hjob', hterminal⟩ := hid'
      by_cases hsame : id' = id
      · subst hsame
        obtain rfl := Option.some.inj (hjob.symm.trans hjob')
        exact ⟨_, Pool.getElem?_set_self hjob, hended hterminal⟩
      · refine ⟨job', ?_, hterminal⟩
        show (s.jobs.set id _)[id']? = _
        rw [List.getElem?_set_ne fun h => hsame h.symm]
        exact hjob'
    · obtain ⟨job', hjob', hactive'⟩ := Option.any_eq_true _ _ |>.mp hactive
      refine Option.any_eq_true _ _ |>.mpr ?_
      rcases Pool.getElem?_set hjob' with ⟨rfl, rfl⟩ | ⟨-, hold⟩
      · refine ⟨job, hjob, ?_⟩
        unfold Job.isActiveForSession at hactive' ⊢
        rw [Bool.and_eq_true, Bool.not_eq_true'] at hactive' ⊢
        refine ⟨hactive'.1, ?_⟩
        by_contra hnot
        have hstill := hended (Bool.not_eq_false _ ▸ hnot)
        exact absurd (hactive'.2.symm.trans hstill) Bool.false_ne_true
      · exact ⟨job', hold, hactive'⟩
  refine ⟨⟨h.nodup, fun id' hid' => ?_, h.length_le,
    fun sessionId => Nat.le_trans (hshrinks.activeCount_le sessionId) (h.active_le sessionId),
    fun id' job' hjob' => ?_, h.holder, fun j u hu => hshrinks.ok (h.tasks j u hu)⟩, hshrinks⟩
  · show id' < (s.jobs.set id _).length
    rw [List.length_set]
    exact h.valid id' hid'
  · rcases Pool.getElem?_set hjob' with ⟨-, rfl⟩ | ⟨-, hold⟩
    · exact hsettled
    · exact h.settled id' job' hold

/-- **Each event keeps the invariant.** -/
theorem step (h : Inv s) {event : Event} {s' : State} (hstep : s.step event = some s') :
    Inv s' := by
  cases event with
  | create request =>
    obtain rfl := Option.some.inj hstep
    exact h.arrive rfl trivial
  | lookup =>
    obtain rfl := Option.some.inj hstep
    exact h.arrive rfl trivial
  | task i now =>
    obtain ⟨t, ht, hstep⟩ := Option.bind_eq_some_iff.mp hstep
    exact h.taskStep ht hstep
  | drop i =>
    obtain ⟨t, ht, hstep⟩ := Option.bind_eq_some_iff.mp hstep
    exact h.dropTask ht hstep
  | job id event =>
    obtain ⟨job, hjob, hstep⟩ := Option.bind_eq_some_iff.mp hstep
    obtain ⟨system, hsystem, rfl⟩ := Option.map_eq_some_iff.mp hstep
    exact (h.jobStep hjob hsystem).1

/-- **What leaves the registry has ended.** -/
theorem terminal_of_removed (h : Inv s) {event : Event} {s' : State}
    (hstep : s.step event = some s') {id : ℕ} (hin : id ∈ s.retained)
    (hout : id ∉ s'.retained) : s.Terminal id := by
  cases event with
  | create request =>
    obtain rfl := Option.some.inj hstep
    exact absurd hin hout
  | lookup =>
    obtain rfl := Option.some.inj hstep
    exact absurd hin hout
  | drop i =>
    obtain ⟨t, -, hstep⟩ := Option.bind_eq_some_iff.mp hstep
    unfold State.dropTask at hstep
    split at hstep
    case h_1 => cases hstep
    case h_2 => cases hstep
    case h_3 =>
      obtain rfl := Option.some.inj hstep
      exact absurd hin hout
  | job id' event =>
    obtain ⟨job, -, hstep⟩ := Option.bind_eq_some_iff.mp hstep
    obtain ⟨system, -, rfl⟩ := Option.map_eq_some_iff.mp hstep
    exact absurd hin hout
  | task i now =>
    obtain ⟨t, ht, hstep⟩ := Option.bind_eq_some_iff.mp hstep
    have hok := h.tasks i t ht
    unfold Task.Ok at hok
    unfold State.taskStep at hstep
    split at hstep
    case h_5 expired hphase =>
      obtain rfl := Option.some.inj hstep
      rw [hphase] at hok
      refine hok id ?_
      by_contra hkept
      exact hout (List.mem_filter.mpr ⟨hin, decide_eq_true hkept⟩)
    case h_10 records id' hphase =>
      rw [hphase] at hok
      split_ifs at hstep with hmem
      · obtain rfl := Option.some.inj hstep
        have hid : id = id' := by
          by_contra hkept
          exact hout (List.mem_filter.mpr ⟨hin, decide_eq_true hkept⟩)
        rw [hid]
        exact hok.2.2
      · obtain rfl := Option.some.inj hstep
        exact absurd hin hout
    case h_13 hphase =>
      obtain ⟨request, -, rfl⟩ := Option.map_eq_some_iff.mp hstep
      exact absurd (List.mem_append_left _ hin) hout
    case h_1 =>
      split_ifs at hstep
      obtain rfl := Option.some.inj hstep
      exact absurd hin hout
    case h_4 | h_7 =>
      obtain ⟨job, -, rfl⟩ := Option.map_eq_some_iff.mp hstep
      exact absurd hin hout
    case h_11 =>
      obtain ⟨job, -, hstep⟩ := Option.bind_eq_some_iff.mp hstep
      obtain ⟨request, -, rfl⟩ := Option.map_eq_some_iff.mp hstep
      exact absurd hin hout
    case h_12 =>
      split_ifs at hstep
      · obtain rfl := Option.some.inj hstep
        exact absurd hin hout
      · obtain rfl := Option.some.inj hstep
        exact absurd hin hout
    case h_14 => cases hstep
    case h_15 => cases hstep
    all_goals
      obtain rfl := Option.some.inj hstep
      exact absurd hin hout

end Inv

/-- **The limits of the registry**, for every interleaving of calls and operations on records:
at most 100 jobs are retained, at most 4 of a session are active, and a job that is evicted or
pruned has ended. -/
theorem limits_of_run {es : List Event} {s : State} (hrun : registry.run es = some s) :
    s.retained.length ≤ maxRetainedJobs ∧
      (∀ sessionId, s.activeCount sessionId ≤ maxActiveJobsPerSession) ∧
      ∀ (event : Event) (s' : State), s.step event = some s' →
        ∀ id ∈ s.retained, id ∉ s'.retained → s.Terminal id := by
  have h : Inv s := Machine.run_invariant Inv.init (fun _ _ _ h hstep => h.step hstep) hrun
  exact ⟨h.length_le, h.active_le, fun event s' hstep id hin hout =>
    h.terminal_of_removed hstep hin hout⟩

/-- A job is created and canceled, and a later lookup prunes it. -/
def prunedJob : List Event :=
  [.create ⟨"s1", "2026-01-01T00:00:00+00:00", 400⟩, .task 0 0, .task 0 0, .task 0 0, .task 0 0,
    .task 0 0, .task 0 0, .task 0 0, .job 0 (.call .finishCanceled), .job 0 (.step 0 ⟨5, 30, 300⟩),
    .lookup, .task 1 1900, .task 1 1900, .task 1 1900]

/-- The pruned job has ended. -/
theorem limits_of_run_prunedJob : ∃ s s', registry.run prunedJob = some s ∧
    s.step (.task 1 1900) = some s' ∧ s'.retained = [] ∧ s.Terminal 0 := by
  have hrun : ((registry.run prunedJob).any fun s => (s.step (.task 1 1900)).any fun s' =>
      s.retained = [0] ∧ s'.retained = []) = true := by decide +kernel
  obtain ⟨s, hs, hnext⟩ := Option.any_eq_true _ _ |>.mp hrun
  obtain ⟨s', hs', hretained⟩ := Option.any_eq_true _ _ |>.mp hnext
  obtain ⟨hone, hnone⟩ := of_decide_eq_true hretained
  refine ⟨s, s', hs, hs', hnone, (limits_of_run hs).2.2 (.task 1 1900) s' hs' 0 ?_ ?_⟩
  · rw [hone]
    exact List.mem_singleton_self 0
  · rw [hnone]
    exact List.not_mem_nil

end JobRegistry
end Api
end HelmSsh
