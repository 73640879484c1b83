/-
# One call of `create`, alone

`JobRegistry::create` of `src-tauri/src/api_server/jobs.rs` when no other call interleaves, from
any map of jobs: `prune_expired`, then `evict_oldest_terminal` when the map is full, then the
count of the jobs of the session that are active.  The eviction comes before that count, so a
job that ended can be removed for a job that is then refused.

* `run_create` — the machine of `HelmSsh.Api.JobRegistry` does this when a call runs alone.
* `create_rejected_iff` — a call that is refused leaves the jobs that have not expired as they were,
  except when the map is full, a job in it has ended, and the session has its four active jobs.
-/

import Mathlib.Data.String.Basic
import HelmSsh.Api.JobRegistry

namespace HelmSsh
namespace Api
namespace JobRegistry

/-- The map of the jobs. -/
abbrev Jobs := List (ℕ × Job)

namespace Jobs

/-- `prune_expired`. -/
def pruneExpired (jobs : Jobs) (now : ℕ) : Jobs :=
  jobs.filter fun entry => !entry.2.expired now

/-- The candidate of `evict_oldest_terminal`. -/
def oldestTerminal (jobs : Jobs) : Option (ℕ × String) :=
  jobs.foldl (fun oldest entry => State.candidate entry.1 entry.2 oldest) none

/-- `remove`. -/
def remove (jobs : Jobs) (jobId : ℕ) : Jobs :=
  jobs.filter fun entry => entry.1 ≠ jobId

/-- `evict_oldest_terminal`: the map without the oldest job that has ended, if there is one. -/
def evictOldestTerminal (jobs : Jobs) : Option Jobs :=
  jobs.oldestTerminal.bind fun oldest =>
    if oldest.1 ∈ jobs.map Prod.fst then some (jobs.remove oldest.1) else none

/-- How many jobs of the session are active. -/
def activeFor (jobs : Jobs) (sessionId : String) : ℕ :=
  jobs.countP fun entry => entry.2.isActiveForSession sessionId

/-- What `create` does once there is room: the records are those from before an eviction. -/
def createIn (jobs records : Jobs) (request : Request) (jobId : ℕ) : Except Error ℕ × Jobs :=
  if maxActiveJobsPerSession ≤ records.activeFor request.sessionId then
    (.error (.capacity "会话同时最多运行 4 个任务"), jobs)
  else
    (.ok jobId,
      jobs ++ [(jobId, ⟨request.sessionId, request.createdAt, .new request.initialBytes⟩)])

/-- What `create` does with the records that have not expired. -/
def createAmong (records : Jobs) (request : Request) (jobId : ℕ) : Except Error ℕ × Jobs :=
  if maxRetainedJobs ≤ records.length then
    match records.evictOldestTerminal with
    | none => (.error (.capacity "任务记录已达到上限 100"), records)
    | some left => left.createIn records request jobId
  else records.createIn records request jobId

/-- `create`, with the id that a new record gets. -/
def create (jobs : Jobs) (request : Request) (jobId now : ℕ) : Except Error ℕ × Jobs :=
  (jobs.pruneExpired now).createAmong request jobId

/-- **A refused call has no effect**: the jobs that have not expired are the same. -/
def RejectedWithoutEffect (jobs : Jobs) (request : Request) (jobId now : ℕ) : Prop :=
  ∀ error, (jobs.create request jobId now).1 = .error error →
    ∀ entry : ℕ × Job, entry.2.expired now = false →
      (entry ∈ (jobs.create request jobId now).2 ↔ entry ∈ jobs)

/-- The map is full, a job in it has ended, and the session has all its active jobs. -/
def EvictsInVain (jobs : Jobs) (request : Request) (now : ℕ) : Prop :=
  maxRetainedJobs ≤ (jobs.pruneExpired now).length ∧
    (∃ entry ∈ jobs.pruneExpired now, entry.2.isTerminal = true) ∧
    maxActiveJobsPerSession ≤ (jobs.pruneExpired now).activeFor request.sessionId

variable {jobs : Jobs} {request : Request} {jobId now : ℕ}

theorem mem_pruneExpired {entry : ℕ × Job} (h : entry.2.expired now = false) :
    entry ∈ jobs.pruneExpired now ↔ entry ∈ jobs := by
  rw [pruneExpired, List.mem_filter, h]
  exact and_iff_left rfl

/-- A candidate stays one while further records are looked at. -/
theorem candidate_isSome {oldest : Option (ℕ × String)} (id : ℕ) (job : Job)
    (h : oldest.isSome ∨ job.isTerminal = true) : (State.candidate id job oldest).isSome := by
  unfold State.candidate
  split_ifs with hbetter
  · rfl
  · rcases h with h | h
    · exact h
    · cases oldest with
      | some _ => rfl
      | none => exact absurd ((Bool.and_eq_true _ _).mpr ⟨h, rfl⟩) hbetter

/-- There is a candidate exactly when a job has ended. -/
theorem foldl_candidate_isSome (jobs : Jobs) (oldest : Option (ℕ × String)) :
    (jobs.foldl (fun oldest entry => State.candidate entry.1 entry.2 oldest) oldest).isSome ↔
      oldest.isSome ∨ ∃ entry ∈ jobs, entry.2.isTerminal = true := by
  induction jobs generalizing oldest with
  | nil => simp
  | cons entry jobs ih =>
    have hone : (State.candidate entry.1 entry.2 oldest).isSome ↔
        oldest.isSome ∨ entry.2.isTerminal = true := by
      refine ⟨fun h => ?_, candidate_isSome entry.1 entry.2⟩
      unfold State.candidate at h
      split_ifs at h with hbetter
      · exact .inr ((Bool.and_eq_true _ _).mp hbetter).1
      · exact .inl h
    rw [List.foldl_cons, ih, hone, List.exists_mem_cons_iff, or_assoc]

theorem mem_of_foldl_candidate {oldest : Option (ℕ × String)} {found : ℕ × String}
    (h : jobs.foldl (fun oldest entry => State.candidate entry.1 entry.2 oldest) oldest
      = some found) :
    oldest = some found ∨ ∃ entry ∈ jobs, entry.1 = found.1 ∧ entry.2.createdAt = found.2 ∧
      entry.2.isTerminal = true := by
  induction jobs generalizing oldest with
  | nil => exact .inl h
  | cons entry jobs ih =>
    rcases ih h with hone | ⟨other, hother, hid⟩
    · unfold State.candidate at hone
      dsimp only at hone
      split_ifs at hone with hbetter
      · obtain rfl := Option.some.inj hone
        exact .inr ⟨entry, List.mem_cons_self, rfl, rfl, ((Bool.and_eq_true _ _).mp hbetter).1⟩
      · exact .inl hone
    · exact .inr ⟨other, List.mem_cons_of_mem _ hother, hid⟩

/-- No job that has ended is older than the candidate. -/
theorem foldl_candidate_le {oldest : Option (ℕ × String)} {found : ℕ × String}
    (h : jobs.foldl (fun oldest entry => State.candidate entry.1 entry.2 oldest) oldest
      = some found) :
    (∀ before ∈ oldest, found.2 ≤ before.2) ∧
      ∀ entry ∈ jobs, entry.2.isTerminal = true → found.2 ≤ entry.2.createdAt := by
  induction jobs generalizing oldest with
  | nil =>
    obtain rfl : oldest = some found := h
    exact ⟨fun before hbefore => (Option.some.inj hbefore) ▸ le_rfl, nofun⟩
  | cons entry jobs ih =>
    obtain ⟨hbefore, hjobs⟩ := ih h
    dsimp only [State.candidate] at hbefore
    split_ifs at hbefore with hbetter
    · have hle := hbefore _ rfl
      obtain ⟨-, hall⟩ := (Bool.and_eq_true _ _).mp hbetter
      refine ⟨fun before hmem => ?_, List.forall_mem_cons.mpr ⟨fun _ => hle, hjobs⟩⟩
      obtain rfl := hmem
      exact hle.trans (of_decide_eq_true hall).le
    · refine ⟨hbefore, List.forall_mem_cons.mpr ⟨fun hterminal => ?_, hjobs⟩⟩
      rw [hterminal, Bool.true_and] at hbetter
      cases oldest with
      | none => exact absurd rfl hbetter
      | some before =>
        exact (hbefore _ rfl).trans (not_lt.mp fun hlt => hbetter (decide_eq_true hlt))

/-- **An eviction** removes a job that has ended, and there is one if any job has. -/
theorem evictOldestTerminal_cases (jobs : Jobs) :
    ((∀ entry ∈ jobs, entry.2.isTerminal = false) ∧ jobs.evictOldestTerminal = none) ∨
      ∃ entry ∈ jobs, entry.2.isTerminal = true ∧
        jobs.evictOldestTerminal = some (jobs.remove entry.1) := by
  unfold evictOldestTerminal
  cases holdest : jobs.oldestTerminal with
  | none =>
    refine .inl ⟨fun entry hentry => ?_, rfl⟩
    by_contra hterminal
    have hsome := (foldl_candidate_isSome jobs none).mpr
      (.inr ⟨entry, hentry, Bool.not_eq_false _ ▸ hterminal⟩)
    rw [oldestTerminal] at holdest
    rw [holdest] at hsome
    cases hsome
  | some oldest =>
    rcases mem_of_foldl_candidate holdest with hnone | ⟨entry, hentry, hid, -, hterminal⟩
    · cases hnone
    · refine .inr ⟨entry, hentry, hterminal, ?_⟩
      rw [Option.bind_some, ← hid, if_pos (List.mem_map_of_mem hentry)]

end Jobs

/-! ### A call of the machine that runs alone -/

/-- The records of some ids. -/
def State.entries (s : State) (ids : List ℕ) : Jobs :=
  ids.filterMap fun id => s.jobs[id]?.map fun job => (id, job)

/-- The map that the registry holds. -/
def State.map (s : State) : Jobs :=
  s.entries s.retained

/-- The `i`-th call is a `create` that holds the lock, in a phase. -/
def State.during (s : State) (i : ℕ) (request : Request) (phase : Phase) : State :=
  { s with mutationLock := some i, tasks := s.tasks.set i ⟨some request, phase⟩ }

/-- Steps of the `i`-th call alone, at one time. -/
def Alone (i now : ℕ) (s s' : State) : Prop :=
  ∃ n, registry.runFrom s (List.replicate n (.task i now)) = some s'

namespace Alone

variable {i now : ℕ} {s s' m : State} {request : Request} {phase : Phase}

theorem refl (s : State) : Alone i now s s :=
  ⟨0, rfl⟩

theorem head (hstep : s.step (.task i now) = some m) (h : Alone i now m s') :
    Alone i now s s' := by
  obtain ⟨n, hn⟩ := h
  refine ⟨n + 1, ?_⟩
  rw [List.replicate_succ, Machine.runFrom_cons]
  exact (congrArg (Option.bind · _) hstep).trans hn

theorem step_during (hi : i < s.tasks.length) :
    (s.during i request phase).step (.task i now)
      = (s.during i request phase).taskStep i ⟨some request, phase⟩ now := by
  have htask : (s.during i request phase).tasks[i]? = some ⟨some request, phase⟩ :=
    List.getElem?_set_self hi
  rw [State.step, htask, Option.bind_some]

theorem during_goTo (next : Phase) :
    (s.during i request phase).goTo i ⟨some request, phase⟩ next = s.during i request next := by
  rw [State.goTo, State.during, List.set_set]
  rfl

/-- `prune_expired` reads the records. -/
theorem pruning (hi : i < s.tasks.length) {todo : List ℕ} (htodo : ∀ id ∈ todo, id < s.jobs.length)
    (expired : List ℕ)
    (h : Alone i now (s.during i request (.removing (expired ++ todo.filter fun id =>
      s.jobs[id]?.any fun job => job.expired now))) s') :
    Alone i now (s.during i request (.pruning todo expired)) s' := by
  induction todo generalizing expired with
  | nil =>
    rw [List.filter_nil, List.append_nil] at h
    exact head (m := s.during i request (.removing expired))
      (by rw [step_during hi]; exact congrArg some (during_goTo _)) h
  | cons id todo ih =>
    have hjob := List.getElem?_eq_getElem (htodo id List.mem_cons_self)
    refine head (by
      rw [step_during hi]
      exact (congrArg (Option.map _) hjob).trans (congrArg some (during_goTo _)))
      (ih (fun id hid => htodo id (List.mem_cons_of_mem _ hid)) _ ?_)
    rw [List.filter_cons, hjob, Option.any_some] at h
    split_ifs at h ⊢
    · rw [List.append_assoc]
      exact h
    · exact h

/-- `evict_oldest_terminal` reads the records. -/
theorem evicting (hi : i < s.tasks.length) {todo : List ℕ}
    (htodo : ∀ id ∈ todo, id < s.jobs.length) (records : List ℕ) (oldest : Option (ℕ × String))
    (h : Alone i now (s.during i request (.evicting records []
      ((s.entries todo).foldl
        (fun oldest entry => State.candidate entry.1 entry.2 oldest) oldest))) s') :
    Alone i now (s.during i request (.evicting records todo oldest)) s' := by
  induction todo generalizing oldest with
  | nil => exact h
  | cons id todo ih =>
    have hjob := List.getElem?_eq_getElem (htodo id List.mem_cons_self)
    refine head (by
      rw [step_during hi]
      exact (congrArg (Option.map _) hjob).trans (congrArg some (during_goTo _)))
      (ih (fun id hid => htodo id (List.mem_cons_of_mem _ hid)) _ ?_)
    rw [State.entries, List.filterMap_cons, hjob] at h
    exact h

theorem counting (hi : i < s.tasks.length) {todo : List ℕ}
    (htodo : ∀ id ∈ todo, id < s.jobs.length) (active : ℕ)
    (h : Alone i now (s.during i request
      (.counting [] (active + (s.entries todo).activeFor request.sessionId))) s') :
    Alone i now (s.during i request (.counting todo active)) s' := by
  induction todo generalizing active with
  | nil => exact h
  | cons id todo ih =>
    have hjob := List.getElem?_eq_getElem (htodo id List.mem_cons_self)
    refine head (by
      rw [step_during hi]
      exact (congrArg (Option.bind · _) hjob).trans (congrArg some (during_goTo _)))
      (ih (fun id hid => htodo id (List.mem_cons_of_mem _ hid)) _ ?_)
    rw [State.entries, List.filterMap_cons, hjob] at h
    dsimp only [Option.map_some, Jobs.activeFor] at h
    rw [List.countP_cons] at h
    split_ifs at h ⊢
    · rw [Nat.add_assoc, Nat.add_comm 1]
      exact h
    · exact h

end Alone

namespace State

variable {s : State}

theorem mem_map {entry : ℕ × Job} :
    entry ∈ s.map ↔ entry.1 ∈ s.retained ∧ s.jobs[entry.1]? = some entry.2 := by
  obtain ⟨id, job⟩ := entry
  rw [map, entries, List.mem_filterMap]
  constructor
  · rintro ⟨id', hid', hentry⟩
    obtain ⟨job', hjob', heq⟩ := Option.map_eq_some_iff.mp hentry
    obtain ⟨rfl, rfl⟩ := Prod.mk.inj heq
    exact ⟨hid', hjob'⟩
  · rintro ⟨hid, hjob⟩
    exact ⟨id, hid, by rw [hjob]; rfl⟩

theorem map_filter (s : State) (p : ℕ → Bool) :
    ({ s with retained := s.retained.filter p } : State).map
      = s.map.filter fun entry => p entry.1 := by
  unfold map entries
  dsimp only
  induction s.retained with
  | nil => rfl
  | cons id retained ih =>
    rw [List.filter_cons]
    cases hjob : s.jobs[id]? with
    | none =>
      split_ifs
      · rw [List.filterMap_cons, List.filterMap_cons, hjob]
        exact ih
      · rw [List.filterMap_cons, hjob]
        exact ih
    | some job =>
      split_ifs with hp
      · rw [List.filterMap_cons, List.filterMap_cons, hjob, Option.map_some]
        dsimp only
        rw [List.filter_cons_of_pos (p := fun entry : ℕ × Job => p entry.1) hp, ih]
      · rw [List.filterMap_cons, hjob, Option.map_some]
        dsimp only
        rw [List.filter_cons_of_neg (p := fun entry : ℕ × Job => p entry.1) hp, ih]

/-- The state after `prune_expired`. -/
def prune (s : State) (now : ℕ) : State :=
  { s with retained := s.retained.filter (· ∉ s.retained.filter fun id =>
      s.jobs[id]?.any fun job => job.expired now) }

/-- The map after `prune_expired`. -/
theorem map_prune (s : State) (now : ℕ) : (s.prune now).map = s.map.pruneExpired now := by
  rw [prune, map_filter]
  refine List.filter_congr fun entry hentry => ?_
  obtain ⟨hid, hjob⟩ := mem_map.mp hentry
  have hpruned : entry.1 ∈ (s.retained.filter fun id => s.jobs[id]?.any fun job =>
      job.expired now) ↔ entry.2.expired now = true := by
    rw [List.mem_filter, hjob, Option.any_some]
    exact and_iff_right hid
  cases hexpired : entry.2.expired now with
  | true => exact decide_eq_false fun hnot => hnot (hpruned.mpr hexpired)
  | false =>
    refine decide_eq_true fun hin => ?_
    rw [hpruned.mp hin] at hexpired
    cases hexpired

theorem length_map (hvalid : ∀ id ∈ s.retained, id < s.jobs.length) :
    s.map.length = s.retained.length := by
  unfold map entries
  induction hretained : s.retained generalizing s with
  | nil => rfl
  | cons id retained ih =>
    have hjob := List.getElem?_eq_getElem
      (hvalid id (by rw [hretained]; exact List.mem_cons_self))
    have hrest := ih (s := { s with retained := retained })
      (fun id hid => hvalid id (by rw [hretained]; exact List.mem_cons_of_mem _ hid)) rfl
    rw [List.filterMap_cons, hjob]
    exact congrArg (· + 1) hrest

theorem keys_map (hvalid : ∀ id ∈ s.retained, id < s.jobs.length) (id : ℕ) :
    id ∈ s.map.map Prod.fst ↔ id ∈ s.retained := by
  rw [List.mem_map]
  constructor
  · rintro ⟨entry, hentry, rfl⟩
    exact (mem_map.mp hentry).1
  · intro hid
    exact ⟨(id, s.jobs.get ⟨id, hvalid id hid⟩), mem_map.mpr ⟨hid, List.getElem?_eq_getElem _⟩, rfl⟩

end State

/-- A call has returned, with what `create` returns and leaves. -/
structure Returned (i : ℕ) (request : Request) (s : State) (outcome : Except Error ℕ × Jobs) :
    Prop where
  map_eq : s.map = outcome.2
  task_eq : s.tasks[i]? = some ⟨some request, .done (outcome.1.map some)⟩
  lock_eq : s.mutationLock = none

section Run

variable {s : State} {i : ℕ} {request : Request}

variable (request) in
/-- From the count on, the machine does what `createIn` says. -/
theorem run_createIn (hi : i < s.tasks.length) (hvalid : ∀ id ∈ s.retained, id < s.jobs.length)
    {records : List ℕ} (hrecords : ∀ id ∈ records, id < s.jobs.length) (now : ℕ) :
    ∃ s', Alone i now (s.during i request (.counting records 0)) s' ∧
      Returned i request s' (s.map.createIn (s.entries records) request s.jobs.length) := by
  have hlength : ∀ phase, i < (s.during i request phase).tasks.length := by
    intro phase
    rw [State.during, List.length_set]
    exact hi
  unfold Jobs.createIn
  split_ifs with hactive
  · let counted := Phase.counting [] (0 + (s.entries records).activeFor request.sessionId)
    refine ⟨(s.during i request counted).refuse i ⟨some request, counted⟩ _,
      Alone.counting hi hrecords 0 (Alone.head ?_ (Alone.refl _)), rfl,
      List.getElem?_set_self (hlength _), rfl⟩
    rw [← Nat.zero_add (Jobs.activeFor _ _)] at hactive
    rw [Alone.step_during hi]
    exact if_pos hactive
  · refine ⟨(s.during i request .inserting).insert i ⟨some request, .inserting⟩ request,
      Alone.counting hi hrecords 0 (Alone.head (m := s.during i request .inserting) ?_
        (Alone.head ?_ (Alone.refl _))), ?_, List.getElem?_set_self (hlength _), rfl⟩
    · rw [Alone.step_during hi, Nat.zero_add]
      exact (if_neg hactive).trans (congrArg some (Alone.during_goTo _))
    · rw [Alone.step_during hi]
      rfl
    · unfold State.insert State.map State.entries State.during
      dsimp only
      rw [List.filterMap_append]
      refine congrArg₂ _ (List.filterMap_congr fun id hid => ?_) ?_
      · rw [List.getElem?_append_left (hvalid id hid)]
      · rw [List.filterMap_cons, Pool.getElem?_added]
        rfl

/-- A call takes the lock and prunes what has expired. -/
theorem run_prune (hvalid : ∀ id ∈ s.retained, id < s.jobs.length)
    (hwaiting : s.tasks[i]? = some ⟨some request, .waiting⟩) (hfree : s.mutationLock = none)
    {now : ℕ} {s' : State} (h : Alone i now ((s.prune now).during i request .listing) s') :
    Alone i now s s' := by
  have hi : i < s.tasks.length := (List.getElem?_eq_some_iff.mp hwaiting).1
  refine Alone.head (m := s.during i request .reading) ?_
    (Alone.head (m := s.during i request (.pruning s.retained [])) ?_
      (Alone.pruning hi hvalid [] (Alone.head ?_ h)))
  · rw [State.step, hwaiting, Option.bind_some]
    exact if_pos hfree
  · rw [Alone.step_during hi]
    exact congrArg some (Alone.during_goTo _)
  · rw [Alone.step_during hi]
    refine congrArg some ?_
    rw [Alone.during_goTo]
    rfl

variable (request) in
/-- From the list of the records on, the machine does what `create` says. -/
theorem run_createAmong (hi : i < s.tasks.length)
    (hvalid : ∀ id ∈ s.retained, id < s.jobs.length) (now : ℕ) :
    ∃ s', Alone i now (s.during i request .listing) s' ∧
      Returned i request s' (s.map.createAmong request s.jobs.length) := by
  unfold Jobs.createAmong
  rw [State.length_map hvalid]
  by_cases hfull : maxRetainedJobs ≤ s.retained.length
  · rw [if_pos hfull]
    have hlisting : ∀ {s'}, Alone i now
        (s.during i request (.evicting s.retained [] s.map.oldestTerminal)) s' →
        Alone i now (s.during i request .listing) s' := by
      intro s' h
      refine Alone.head ?_ (Alone.evicting hi hvalid s.retained none h)
      rw [Alone.step_during hi]
      exact congrArg some ((congrArg (State.goTo _ _ _) (if_pos hfull)).trans (Alone.during_goTo _))
    unfold Jobs.evictOldestTerminal
    cases holdest : s.map.oldestTerminal with
    | none =>
      rw [holdest] at hlisting
      refine ⟨(s.during i request (.evicting s.retained [] none)).refuse i
        ⟨some request, .evicting s.retained [] none⟩ _, hlisting (Alone.head ?_ (Alone.refl _)),
        rfl, List.getElem?_set_self ?_, rfl⟩
      · rw [Alone.step_during hi]
        rfl
      · rw [State.during, List.length_set]
        exact hi
    | some oldest =>
      rw [holdest] at hlisting
      rw [Option.bind_some]
      have hreplacing : ∀ {s'},
          Alone i now (s.during i request (.replacing s.retained oldest.1)) s' →
          Alone i now (s.during i request .listing) s' := by
        intro s' h
        refine hlisting (Alone.head ?_ h)
        rw [Alone.step_during hi]
        exact congrArg some (Alone.during_goTo _)
      by_cases hmem : oldest.1 ∈ s.retained
      · rw [if_pos ((State.keys_map hvalid _).mpr hmem)]
        let left : State := { s with retained := s.retained.filter (· ≠ oldest.1) }
        obtain ⟨s', hrun, hreturned⟩ := run_createIn (s := left) request hi
          (fun id hid => hvalid id (List.mem_of_mem_filter hid)) hvalid now
        rw [State.map_filter] at hreturned
        refine ⟨s', hreplacing (Alone.head ?_ hrun), hreturned⟩
        rw [Alone.step_during hi]
        refine (if_pos hmem).trans (congrArg some ?_)
        rw [Alone.during_goTo]
        rfl
      · rw [if_neg fun hkey => hmem ((State.keys_map hvalid _).mp hkey)]
        refine ⟨(s.during i request (.replacing s.retained oldest.1)).refuse i
          ⟨some request, .replacing s.retained oldest.1⟩ _,
          hreplacing (Alone.head ?_ (Alone.refl _)), rfl, List.getElem?_set_self ?_, rfl⟩
        · rw [Alone.step_during hi]
          exact if_neg hmem
        · rw [State.during, List.length_set]
          exact hi
  · rw [if_neg hfull]
    obtain ⟨s', hrun, hreturned⟩ := run_createIn request hi hvalid hvalid now
    refine ⟨s', Alone.head ?_ hrun, hreturned⟩
    rw [Alone.step_during hi]
    exact congrArg some ((congrArg (State.goTo _ _ _) (if_neg hfull)).trans (Alone.during_goTo _))

/-- **The machine does what `create` says** when a call runs alone: from any map of records, with
the lock free. -/
theorem run_create (hvalid : ∀ id ∈ s.retained, id < s.jobs.length)
    (hwaiting : s.tasks[i]? = some ⟨some request, .waiting⟩) (hfree : s.mutationLock = none)
    (now : ℕ) :
    ∃ s', Alone i now s s' ∧ Returned i request s' (s.map.create request s.jobs.length now) := by
  have hi : i < s.tasks.length := (List.getElem?_eq_some_iff.mp hwaiting).1
  obtain ⟨s', hrun, hreturned⟩ := run_createAmong (s := s.prune now) request hi
    (fun id hid => hvalid id (List.mem_of_mem_filter hid)) now
  rw [s.map_prune] at hreturned
  exact ⟨s', run_prune hvalid hwaiting hfree hrun, hreturned⟩

/-- A job of a session, that has ended or not. -/
def exampleJob (sessionId : String) (status : JobStatus) : Job where
  sessionId := sessionId
  createdAt := "t"
  system :=
    { record := { state := { JobState.new 0 with
                    status := status
                    completedAt := if status.isTerminal then some 0 else none }
                  cancelTx := false
                  sent := [] }
      calls := [] }

/-- A full registry with three active jobs of a session, and a call of `create` for a fourth one. -/
def fullRegistry : State where
  jobs := (List.range 100).map fun id =>
    exampleJob (if id < 3 then "a" else "b") (if id < 3 then .running else .completed)
  retained := List.range 100
  mutationLock := none
  tasks := [⟨some ⟨"a", "2026-01-01T00:01:00+00:00", 0⟩, .waiting⟩]

/-- The first job that has ended makes room for the new one. -/
theorem run_create_full : ∃ s', Alone 0 60 fullRegistry s' ∧
    s'.map.map Prod.fst = (List.range 101).filter (· ≠ 3) ∧
    s'.tasks[0]?.map Task.phase = some (.done (.ok (some 100))) := by
  obtain ⟨s', hrun, hmap, htask, -⟩ :=
    run_create (s := fullRegistry) (i := 0) (by decide) rfl rfl 60
  refine ⟨s', hrun, ?_, ?_⟩
  · rw [hmap]
    decide +kernel
  · rw [htask]
    decide +kernel

end Run

/-! ### What a refused call leaves -/

namespace Jobs

variable {jobs : Jobs} {request : Request} {jobId now : ℕ}

/-- An eviction for a job that is refused is an effect. -/
theorem effect_of_evictsInVain (h : jobs.EvictsInVain request now) :
    ¬ jobs.RejectedWithoutEffect request jobId now := by
  obtain ⟨hfull, ⟨ended, hended, hterminal⟩, hactive⟩ := h
  intro heffect
  unfold RejectedWithoutEffect create createAmong at heffect
  rw [if_pos hfull] at heffect
  rcases evictOldestTerminal_cases (jobs.pruneExpired now) with
    ⟨hnone, -⟩ | ⟨evicted, hevicted, -, hevict⟩
  · rw [hnone ended hended] at hterminal
    cases hterminal
  rw [hevict] at heffect
  dsimp only at heffect
  rw [createIn, if_pos hactive] at heffect
  -- the job that was evicted had not expired
  have hexpired : evicted.2.expired now = false := by
    have := (List.mem_filter.mp hevicted).2
    rw [Bool.not_eq_true'] at this
    exact this
  have hleft := (heffect _ rfl evicted hexpired).mpr ((mem_pruneExpired hexpired).mp hevicted)
  have hne := (List.mem_filter.mp hleft).2
  rw [decide_eq_true_iff] at hne
  exact hne rfl

theorem rejectedWithoutEffect (h : ¬ jobs.EvictsInVain request now) :
    jobs.RejectedWithoutEffect request jobId now := by
  intro error herror entry hexpired
  unfold create createAmong at herror ⊢
  by_cases hfull : maxRetainedJobs ≤ (jobs.pruneExpired now).length
  · rw [if_pos hfull] at herror ⊢
    rcases evictOldestTerminal_cases (jobs.pruneExpired now) with
      ⟨-, hevict⟩ | ⟨ended, hended, hterminal, hevict⟩
    · rw [hevict]
      exact mem_pruneExpired hexpired
    · rw [hevict] at herror
      dsimp only at herror
      have hactive :
          ¬ maxActiveJobsPerSession ≤ (jobs.pruneExpired now).activeFor request.sessionId :=
        fun hactive => h ⟨hfull, ⟨ended, hended, hterminal⟩, hactive⟩
      rw [createIn, if_neg hactive] at herror
      cases herror
  · rw [if_neg hfull] at herror ⊢
    unfold createIn at herror ⊢
    split_ifs at herror ⊢ with hactive
    exact mem_pruneExpired hexpired

end Jobs

/-- **When a refused call has no effect**: unless the map is full, a job in it has ended and the
session has all its active jobs. -/
theorem create_rejected_iff (jobs : Jobs) (request : Request) (jobId now : ℕ) :
    jobs.RejectedWithoutEffect request jobId now ↔ ¬ jobs.EvictsInVain request now :=
  ⟨fun heffect hvain => Jobs.effect_of_evictsInVain hvain heffect, Jobs.rejectedWithoutEffect⟩

/-- A full map with four active jobs of a session and jobs that have just ended: the fifth job of
the session is refused, and an ended job is gone. -/
theorem create_rejected_evicts :
    ¬ ∀ (jobs : Jobs) (request : Request) (jobId now : ℕ),
      jobs.RejectedWithoutEffect request jobId now := by
  intro h
  let jobs : Jobs := (List.range 100).map fun id =>
    (id, exampleJob (if id < 4 then "a" else "b") (if id < 4 then .running else .completed))
  have hvain : jobs.EvictsInVain ⟨"a", "2026-01-01T00:01:00+00:00", 0⟩ 60 := by
    refine ⟨?_, ⟨(4, exampleJob "b" .completed), ?_, ?_⟩, ?_⟩ <;> decide +kernel
  exact Jobs.effect_of_evictsInVain hvain (h jobs _ 100 60)

end JobRegistry
end Api
end HelmSsh
