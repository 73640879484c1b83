/-
# The telemetry jobs of a session

`telemetry_start` and the calls that stop jobs, of `src-tauri/src/remote/runtime_telemetry.rs`,
with the teardown of a connection.  A start stops the jobs of its session, spawns a collector
that waits at a gate, registers it while it reads the registry of connections, and opens the
gate.  Stopping is to list the jobs, to take their records out of the map, and to send each its
shutdown, one after the other.

Nothing keeps two starts of a session apart: both may list its jobs before either registers its
own.  The gate of the lifecycle, which `closeAll` alone holds exclusively, is left out, so that
there are more runs here.

* `unique_iff` — a session never has two jobs in a run exactly when no start registers its job
  next to one that was registered after it had listed the jobs of the session;
* `overlapping_starts` — two starts that overlap leave two jobs.
-/

import HelmSsh.Machine
import HelmSsh.Pool
import Mathlib.Data.List.Nodup

namespace HelmSsh
namespace Remote
namespace TelemetryJobs

/-- A collector task, whose number is the id of its job. -/
structure Task where
  connection : String
  session : String
  /-- Its record was in `telemetry_jobs`. -/
  published : Bool
  /-- The start gate is open. -/
  released : Bool
  /-- `shutdown` was sent. -/
  told : Bool
  ended : Bool
  deriving DecidableEq

/-- A new task, at its gate. -/
def Task.new (connection session : String) : Task :=
  { connection, session, published := false, released := false, told := false, ended := false }

/-- The calls. -/
inductive Kind
  /-- `telemetry_start`. -/
  | start (connection session : String)
  /-- `telemetry_stop`. -/
  | stop (job : ℕ)
  /-- `telemetry_stop_by_connection`, when no channel can be opened. -/
  | reclaim (connection : String)
  /-- `shutdown_connection_with_reason`, with `cancel_telemetry_for_connection`. -/
  | teardown (connection : String)
  /-- `close_all_orphans`. -/
  | closeAll
  deriving DecidableEq

/-- The jobs that the call stops. -/
def Kind.stops : Kind → Task → Bool
  | .start _ session, t => t.session = session
  | .reclaim connection, t => t.connection = connection
  | .teardown connection, t => t.connection = connection
  | _, _ => false

/-- How far a call is. -/
inductive Phase
  | begun
  /-- Will list the jobs. -/
  | looking
  | listed (ids : List ℕ)
  /-- Has taken these records, of those that it had listed. -/
  | stopping (ids records : List ℕ)
  /-- `telemetry_start` has spawned its task. -/
  | spawned (ids : List ℕ) (job : ℕ)
  | published (job : ℕ)
  | ended
  deriving DecidableEq

/-- The registered jobs that the call has met. -/
def Phase.met : Phase → List ℕ
  | .listed ids => ids
  | .stopping ids records => ids ++ records
  | .spawned ids _ => ids
  | .published job => [job]
  | _ => []

/-- The listed jobs that the call has taken out of the map. -/
def Phase.gone : Phase → List ℕ
  | .stopping ids _ => ids
  | .spawned ids _ => ids
  | _ => []

theorem Phase.met_of_gone (phase : Phase) {job : ℕ} (h : job ∈ phase.gone) : job ∈ phase.met := by
  cases phase with
  | stopping ids records => exact List.mem_append_left records h
  | spawned ids other => exact h
  | begun => cases h
  | looking => cases h
  | listed ids => cases h
  | published other => cases h
  | ended => cases h

/-- The jobs whose records the call has, to stop or to register them. -/
def Phase.hand : Phase → List ℕ
  | .stopping _ records => records
  | .spawned _ job => [job]
  | _ => []

/-- The job that the call will register. -/
def Phase.job : Phase → Option ℕ
  | .spawned _ job => some job
  | _ => none

/-- A call. -/
structure Call where
  kind : Kind
  phase : Phase
  deriving DecidableEq

/-- The runtime. -/
structure State where
  connections : List String
  tasks : List Task
  /-- `telemetry_jobs`. -/
  jobs : List ℕ
  calls : List Call
  deriving DecidableEq

/-- A step of a call. -/
inductive Action
  /-- Up to the listing: the connection is looked up or removed, or a job is taken at once. -/
  | enter
  | list
  | take
  /-- A record is told to stop. -/
  | tell
  /-- All are: a start spawns its task, the others end. -/
  | proceed
  /-- `telemetry_jobs.insert`, while the connections are read. -/
  | publish
  /-- `start_sender.send`. -/
  | release
  deriving DecidableEq

/-- What happens. -/
inductive Event
  | connect (connection : String)
  | call (kind : Kind)
  | step (i : ℕ) (action : Action)
  /-- The collector gives up: it removes its record and returns. -/
  | taskFails (job : ℕ)
  /-- The collector heeds its shutdown, or is aborted. -/
  | taskStops (job : ℕ)
  | taskPanics (job : ℕ)
  deriving DecidableEq

namespace State

/-- The registered jobs whose tasks satisfy a condition. -/
def jobsWhere (s : State) (p : Task → Bool) : List ℕ :=
  s.jobs.filter fun job => s.tasks[job]?.any p

/-- The registered jobs of a session. -/
def jobsOf (s : State) (session : String) : List ℕ :=
  s.jobsWhere fun t => t.session = session

/-- The `i`-th call goes on. -/
def goTo (s : State) (i : ℕ) (c : Call) (phase : Phase) : State :=
  { s with calls := s.calls.set i { c with phase } }

/-- A step of a call. -/
def callStep (s : State) (i : ℕ) (c : Call) : Action → Option State
  | .enter =>
    match c.phase, c.kind with
    | .begun, .start connection _ =>
      some (s.goTo i c (if connection ∈ s.connections then .looking else .ended))
    | .begun, .stop job =>
      if job ∈ s.jobs then
        some ({ s with jobs := s.jobs.erase job }.goTo i c (.stopping [] [job]))
      else some (s.goTo i c .ended)
    | .begun, .reclaim _ => some (s.goTo i c .looking)
    | .begun, .teardown connection =>
      if connection ∈ s.connections then
        some ({ s with connections := s.connections.erase connection }.goTo i c .looking)
      else some (s.goTo i c .ended)
    | .begun, .closeAll => some ({ s with jobs := [] }.goTo i c (.stopping [] s.jobs))
    | _, _ => none
  | .list =>
    match c.phase with
    | .looking => some (s.goTo i c (.listed (s.jobsWhere c.kind.stops)))
    | _ => none
  | .take =>
    match c.phase with
    | .listed ids =>
      some ({ s with jobs := s.jobs.filter fun job => job ∉ ids }.goTo i c
        (.stopping ids (ids.filter fun job => job ∈ s.jobs)))
    | _ => none
  | .tell =>
    match c.phase with
    | .stopping ids (job :: records) =>
      some ({ s with tasks := s.tasks.modify job fun t => { t with told := true } }.goTo i c
        (.stopping ids records))
    | _ => none
  | .proceed =>
    match c.phase, c.kind with
    | .stopping ids [], .start connection session =>
      some ({ s with tasks := s.tasks ++ [Task.new connection session] }.goTo i c
        (.spawned ids s.tasks.length))
    | .stopping _ [], _ => some (s.goTo i c .ended)
    | _, _ => none
  | .publish =>
    match c.phase, c.kind with
    | .spawned _ job, .start connection _ =>
      if connection ∈ s.connections then
        some ({ s with
          tasks := s.tasks.modify job fun t => { t with published := true }
          jobs := s.jobs ++ [job] }.goTo i c (.published job))
      else
        some ({ s with
          tasks := s.tasks.modify job fun t => { t with ended := true } }.goTo i c .ended)
    | _, _ => none
  | .release =>
    match c.phase with
    | .published job =>
      if s.tasks[job]?.any Task.ended then
        some ({ s with jobs := s.jobs.erase job }.goTo i c .ended)
      else
        some ({ s with
          tasks := s.tasks.modify job fun t => { t with released := true } }.goTo i c .ended)
    | _ => none

/-- The task of a job ends. -/
def endTask (s : State) (job : ℕ) : State :=
  { s with tasks := s.tasks.modify job fun t => { t with ended := true } }

/-- One step. -/
def step (s : State) : Event → Option State
  | .connect connection =>
    if connection ∈ s.connections then none
    else some { s with connections := s.connections ++ [connection] }
  | .call kind => some { s with calls := s.calls ++ [⟨kind, .begun⟩] }
  | .step i action => s.calls[i]?.bind fun c => s.callStep i c action
  | .taskFails job =>
    if s.tasks[job]?.any fun t => t.released && !t.ended then
      some ({ s with jobs := s.jobs.erase job }.endTask job)
    else none
  | .taskStops job =>
    if s.tasks[job]?.any fun t => t.told && !t.ended then some (s.endTask job) else none
  | .taskPanics job =>
    if s.tasks[job]?.any fun t => t.released && !t.ended then some (s.endTask job) else none

/-- A session has at most one job. -/
def AtMostOne (s : State) : Prop :=
  ∀ session, (s.jobsOf session).length ≤ 1

end State

/-- The runtime from its start. -/
def runtime : Machine State Event where
  init := { connections := [], tasks := [], jobs := [], calls := [] }
  step := State.step

/-! ### The invariant -/

/-- The record of the job was in the map. -/
def State.Published (s : State) (job : ℕ) : Prop :=
  ∃ t, s.tasks[job]? = some t ∧ t.published = true

/-- A call has the record of the job. -/
def InHand (calls : List Call) (job : ℕ) : Prop :=
  ∃ (i : ℕ) (c : Call), calls[i]? = some c ∧ job ∈ c.phase.hand

/-- **The invariant.**  A job is registered once; what a start has listed it has taken out; the
job that it will register is its own; and every task is in the map, in the hands of a call, told
to stop or at its end. -/
structure Inv (s : State) : Prop where
  nodup : s.jobs.Nodup
  published : ∀ job ∈ s.jobs, s.Published job
  met : ∀ (i : ℕ) (c : Call), s.calls[i]? = some c → ∀ job ∈ c.phase.met, s.Published job
  gone : ∀ (i : ℕ) (c : Call), s.calls[i]? = some c → ∀ job ∈ c.phase.gone, job ∉ s.jobs
  spawned : ∀ (i : ℕ) (c : Call) (job : ℕ), s.calls[i]? = some c → c.phase.job = some job →
    ∃ connection session, c.kind = .start connection session ∧
      s.tasks[job]? = some (.new connection session)
  distinct : ∀ (i i' : ℕ) (c c' : Call) (job : ℕ), s.calls[i]? = some c → s.calls[i']? = some c' →
    c.phase.job = some job → c'.phase.job = some job → i = i'
  accounted : ∀ (job : ℕ) (t : Task), s.tasks[job]? = some t → t.told = false → t.ended = false →
    job ∈ s.jobs ∨ InHand s.calls job

/-- A task, and what became of it by a step that does not register it. -/
structure Later (t t' : Task) : Prop where
  session : t'.session = t.session
  published : t'.published = t.published
  told : t'.told = false → t.told = false
  ended : t'.ended = false → t.ended = false

theorem Later.refl (t : Task) : Later t t :=
  ⟨rfl, rfl, id, id⟩

namespace Inv

variable {s s' : State}

/-- **The steps that register nothing**: tasks only go on, jobs are only taken out, and a call
that goes on is not about to register a job. -/
theorem next (h : Inv s) (htasks : Pool.Related Later s.tasks s'.tasks)
    (hjobs : s'.jobs.Sublist s.jobs)
    (hcalls : ∀ (k : ℕ) (d : Call), s'.calls[k]? = some d → s.calls[k]? = some d ∨
      d.phase.job = none ∧ (∀ job ∈ d.phase.met, s.Published job) ∧
        ∀ job ∈ d.phase.gone, job ∉ s'.jobs)
    (hkept : ∀ (k : ℕ) (d : Call) (job : ℕ), s.calls[k]? = some d → s'.calls[k]? = some d →
      d.phase.job = some job → s'.tasks[job]? = s.tasks[job]?)
    (haccount : ∀ (job : ℕ) (t' : Task), s'.tasks[job]? = some t' → t'.told = false →
      t'.ended = false → job ∈ s.jobs ∨ InHand s.calls job →
        job ∈ s'.jobs ∨ InHand s'.calls job) :
    Inv s' := by
  have hpublished : ∀ job, s.Published job → s'.Published job := by
    rintro job ⟨t, ht, hpub⟩
    obtain ⟨t', ht', hlater⟩ := htasks.forth ht
    exact ⟨t', ht', hlater.published.trans hpub⟩
  have hold : ∀ (k : ℕ) (d : Call) (job : ℕ), s'.calls[k]? = some d → d.phase.job = some job →
      s.calls[k]? = some d := by
    intro k d job hd hjob
    rcases hcalls k d hd with hd | ⟨hnone, -⟩
    · exact hd
    · rw [hnone] at hjob
      cases hjob
  refine ⟨h.nodup.sublist hjobs, fun job hin => hpublished job (h.published job (hjobs.subset hin)),
    fun k d hd job hin => ?_, fun k d hd job hin => ?_, fun k d job hd hjob => ?_,
    fun k k' d d' job hd hd' hjob hjob' => ?_, fun job t' ht' htold hended => ?_⟩
  · rcases hcalls k d hd with hd | ⟨-, hmet, -⟩
    · exact hpublished job (h.met k d hd job hin)
    · exact hpublished job (hmet job hin)
  · rcases hcalls k d hd with hd | ⟨-, -, hgone⟩
    · exact fun hjob => h.gone k d hd job hin (hjobs.subset hjob)
    · exact hgone job hin
  · rw [hkept k d job (hold k d job hd hjob) hd hjob]
    exact h.spawned k d job (hold k d job hd hjob) hjob
  · exact h.distinct k k' d d' job (hold k d job hd hjob) (hold k' d' job hd' hjob') hjob hjob'
  · obtain ⟨t, ht, hlater⟩ := htasks.back ht'
    exact haccount job t' ht' htold hended
      (h.accounted job t ht (hlater.told htold) (hlater.ended hended))

/-- The task of a job that is about to be registered is untouched when another's is changed. -/
theorem kept_modify (h : Inv s) {job : ℕ} (f : Task → Task)
    (hnot : ∀ connection session, s.tasks[job]? ≠ some (.new connection session))
    {k : ℕ} {d : Call} {other : ℕ} (hd : s.calls[k]? = some d) (hother : d.phase.job = some other) :
    (s.tasks.modify job f)[other]? = s.tasks[other]? := by
  obtain ⟨connection, session, -, ht⟩ := h.spawned k d other hd hother
  have hne : job ≠ other := by
    rintro rfl
    exact hnot connection session ht
  exact List.getElem?_modify_ne f s.tasks hne

theorem not_new_of_published {job : ℕ} (hpub : s.Published job) :
    ∀ connection session, s.tasks[job]? ≠ some (.new connection session) := by
  intro connection session hnew
  obtain ⟨t, ht, htrue⟩ := hpub
  obtain rfl := Option.some.inj (ht.symm.trans hnew)
  cases htrue

variable {c : Call} {i : ℕ}

/-- **A call goes on.**  What leaves the map or its hands is in the other of the two, or its task
has ended. -/
theorem move (h : Inv s) (hc : s.calls[i]? = some c) {phase : Phase}
    {connections : List String} {jobs : List ℕ} (hjobs : jobs.Sublist s.jobs)
    (hjob : phase.job = none) (hmet : ∀ job ∈ phase.met, s.Published job)
    (hgone : ∀ job ∈ phase.gone, job ∉ jobs)
    (hhand : ∀ (job : ℕ) (t : Task), s.tasks[job]? = some t → t.ended = false →
      job ∈ s.jobs ∨ job ∈ c.phase.hand → job ∈ jobs ∨ job ∈ phase.hand) :
    Inv ({ s with connections := connections, jobs := jobs }.goTo i c phase) := by
  refine h.next (Pool.related_refl Later.refl) hjobs (fun k d hd => ?_) (fun _ _ _ _ _ _ => rfl)
    fun job t ht _ hended hold => ?_
  · rcases Pool.getElem?_set hd with ⟨-, rfl⟩ | ⟨-, hd⟩
    · exact .inr ⟨hjob, hmet, hgone⟩
    · exact .inl hd
  · have hset : job ∈ phase.hand → InHand (s.calls.set i { c with phase }) job :=
      fun hin => ⟨i, _, Pool.getElem?_set_self hc, hin⟩
    rcases hold with hin | ⟨k, d, hd, hin⟩
    · exact (hhand job t ht hended (.inl hin)).imp_right hset
    · by_cases hki : k = i
      · subst hki
        obtain rfl := Option.some.inj (hc.symm.trans hd)
        exact (hhand job t ht hended (.inr hin)).imp_right hset
      · exact .inr ⟨k, d, (List.getElem?_set_ne (fun heq => hki heq.symm)).trans hd, hin⟩

/-- A call ends, or looks at the jobs, with empty hands. -/
theorem moveOn (h : Inv s) (hc : s.calls[i]? = some c) {phase : Phase}
    {connections : List String} (hphase : phase = .looking ∨ phase = .ended)
    (hhand : c.phase.hand = []) : Inv ({ s with connections := connections }.goTo i c phase) := by
  have hempty : phase.job = none ∧ phase.met = [] ∧ phase.gone = [] := by
    rcases hphase with rfl | rfl
    · exact ⟨rfl, rfl, rfl⟩
    · exact ⟨rfl, rfl, rfl⟩
  refine h.move hc (List.Sublist.refl _) hempty.1 (fun job hin => ?_) (fun job hin => ?_)
    fun job t _ _ hold => ?_
  · rw [hempty.2.1] at hin
    cases hin
  · rw [hempty.2.2] at hin
    cases hin
  · rw [hhand] at hold
    exact .inl (hold.resolve_right List.not_mem_nil)

/-- **The first section of a call.** -/
theorem enter (h : Inv s) (hc : s.calls[i]? = some c)
    (hstep : s.callStep i c .enter = some s') : Inv s' := by
  dsimp only [State.callStep] at hstep
  split at hstep
  case h_1 connection session hphase hkind =>
    obtain rfl := Option.some.inj hstep
    refine h.moveOn hc ?_ (by rw [hphase]; rfl)
    split_ifs
    · exact .inl rfl
    · exact .inr rfl
  case h_2 job hphase hkind =>
    split_ifs at hstep with hin
    · obtain rfl := Option.some.inj hstep
      refine h.move hc List.erase_sublist rfl (fun other hother => ?_)
        (fun _ hnone => absurd hnone List.not_mem_nil) fun other t _ _ hold => ?_
      · obtain rfl := List.mem_singleton.mp hother
        exact h.published _ hin
      · rw [hphase] at hold
        have hother := hold.resolve_right List.not_mem_nil
        by_cases hsame : other = job
        · exact .inr (List.mem_singleton.mpr hsame)
        · exact .inl ((List.mem_erase_of_ne hsame).mpr hother)
    · obtain rfl := Option.some.inj hstep
      exact h.moveOn hc (.inr rfl) (by rw [hphase]; rfl)
  case h_3 connection hphase hkind =>
    obtain rfl := Option.some.inj hstep
    exact h.moveOn hc (.inl rfl) (by rw [hphase]; rfl)
  case h_4 connection hphase hkind =>
    split_ifs at hstep
    · obtain rfl := Option.some.inj hstep
      exact h.moveOn hc (.inl rfl) (by rw [hphase]; rfl)
    · obtain rfl := Option.some.inj hstep
      exact h.moveOn hc (.inr rfl) (by rw [hphase]; rfl)
  case h_5 hphase hkind =>
    obtain rfl := Option.some.inj hstep
    refine h.move hc (List.nil_sublist _) rfl (fun job hin => h.published job hin)
      (fun _ _ => List.not_mem_nil) fun job t _ _ hold => ?_
    rw [hphase] at hold
    exact .inr (hold.resolve_right List.not_mem_nil)
  case h_6 => cases hstep

/-- **The jobs are listed.** -/
theorem list (h : Inv s) (hc : s.calls[i]? = some c)
    (hstep : s.callStep i c .list = some s') : Inv s' := by
  dsimp only [State.callStep] at hstep
  split at hstep
  case h_1 hphase =>
    obtain rfl := Option.some.inj hstep
    refine h.move hc (List.Sublist.refl _) rfl
      (fun job hin => h.published job (List.mem_of_mem_filter hin))
      (fun _ hnone => absurd hnone List.not_mem_nil) fun job t _ _ hold => ?_
    rw [hphase] at hold
    exact .inl (hold.resolve_right List.not_mem_nil)
  case h_2 => cases hstep

/-- **The records are taken out.** -/
theorem take (h : Inv s) (hc : s.calls[i]? = some c)
    (hstep : s.callStep i c .take = some s') : Inv s' := by
  dsimp only [State.callStep] at hstep
  split at hstep
  case h_1 ids hphase =>
    obtain rfl := Option.some.inj hstep
    have hmet := h.met i c hc
    rw [hphase] at hmet
    refine h.move hc List.filter_sublist rfl (fun job hin => ?_) (fun job hin hjob => ?_)
      fun job t _ _ hold => ?_
    · rcases List.mem_append.mp hin with hin | hin
      · exact hmet job hin
      · exact hmet job (List.mem_of_mem_filter hin)
    · exact of_decide_eq_true (List.mem_filter.mp hjob).2 hin
    · rw [hphase] at hold
      have hjob := hold.resolve_right List.not_mem_nil
      by_cases hin : job ∈ ids
      · exact .inr (List.mem_filter.mpr ⟨hin, decide_eq_true hjob⟩)
      · exact .inl (List.mem_filter.mpr ⟨hjob, decide_eq_true hin⟩)
  case h_2 => cases hstep

/-- **A task goes on**, and with it a call that has its record no longer. -/
theorem touch (h : Inv s) {job : ℕ} {f : Task → Task} {jobs : List ℕ} {calls : List Call}
    (hf : ∀ t, Later t (f t))
    (hnot : ∀ connection session, s.tasks[job]? ≠ some (.new connection session))
    (hjobs : jobs.Sublist s.jobs)
    (hcalls : ∀ (k : ℕ) (d : Call), calls[k]? = some d → s.calls[k]? = some d ∨
      d.phase.job = none ∧ (∀ other ∈ d.phase.met, s.Published other) ∧
        ∀ other ∈ d.phase.gone, other ∉ jobs)
    (haccount : ∀ (other : ℕ) (t : Task), (s.tasks.modify job f)[other]? = some t →
      t.told = false → t.ended = false → other ∈ s.jobs ∨ InHand s.calls other →
        other ∈ jobs ∨ InHand calls other) :
    Inv { s with tasks := s.tasks.modify job f, jobs := jobs, calls := calls } :=
  h.next (Pool.related_modify Later.refl hf job) hjobs hcalls
    (fun _ _ _ hd _ hother => h.kept_modify f hnot hd hother) haccount

theorem modify_self {job : ℕ} {f : Task → Task} {t' : Task}
    (h : (s.tasks.modify job f)[job]? = some t') : ∃ t, s.tasks[job]? = some t ∧ t' = f t := by
  rw [List.getElem?_modify_eq] at h
  obtain ⟨t, ht, rfl⟩ := Option.map_eq_some_iff.mp h
  exact ⟨t, ht, rfl⟩

theorem calls_set (s : State) (i : ℕ) (c : Call) (phase : Phase) {jobs : List ℕ}
    (hjob : phase.job = none) (hmet : ∀ job ∈ phase.met, s.Published job)
    (hgone : ∀ job ∈ phase.gone, job ∉ jobs) : ∀ (k : ℕ) (d : Call),
      (s.calls.set i { c with phase })[k]? = some d → s.calls[k]? = some d ∨
      d.phase.job = none ∧ (∀ job ∈ d.phase.met, s.Published job) ∧
        ∀ job ∈ d.phase.gone, job ∉ jobs := by
  intro k d hd
  rcases Pool.getElem?_set hd with ⟨-, rfl⟩ | ⟨-, hd⟩
  · exact .inr ⟨hjob, hmet, hgone⟩
  · exact .inl hd

theorem inHand_set {phase : Phase} {job : ℕ} (hc : s.calls[i]? = some c)
    (hhand : ∀ other ∈ c.phase.hand, other ≠ job → other ∈ phase.hand) {other : ℕ}
    (hne : other ≠ job) (h : InHand s.calls other) :
    InHand (s.calls.set i { c with phase }) other :=
  Pool.exists_set hc h fun hin => hhand other hin hne

/-- **A record is told to stop.** -/
theorem tell (h : Inv s) (hc : s.calls[i]? = some c)
    (hstep : s.callStep i c .tell = some s') : Inv s' := by
  dsimp only [State.callStep] at hstep
  split at hstep
  case h_1 ids job records hphase =>
    obtain rfl := Option.some.inj hstep
    have hmet := h.met i c hc
    have hgone := h.gone i c hc
    rw [hphase] at hmet hgone
    have hpub : s.Published job := hmet job (List.mem_append_right _ List.mem_cons_self)
    refine h.touch (fun t => ⟨rfl, rfl, fun hfalse => (by cases hfalse), id⟩)
      (not_new_of_published hpub) (List.Sublist.refl _)
      (calls_set s i c (.stopping ids records) rfl (fun other hin => ?_) hgone)
      fun other t' ht' htold _ hold => ?_
    · rcases List.mem_append.mp hin with hin | hin
      · exact hmet other (List.mem_append_left _ hin)
      · exact hmet other (List.mem_append_right _ (List.mem_cons_of_mem _ hin))
    · have hne : other ≠ job := by
        rintro rfl
        obtain ⟨t, -, rfl⟩ := modify_self ht'
        cases htold
      refine hold.imp_right (inHand_set hc (fun x hx hxne => ?_) hne)
      rw [hphase] at hx
      exact (List.mem_cons.mp hx).resolve_left hxne
  case h_2 => cases hstep

/-- **All records are told**, and a start spawns its task. -/
theorem proceed (h : Inv s) (hc : s.calls[i]? = some c)
    (hstep : s.callStep i c .proceed = some s') : Inv s' := by
  dsimp only [State.callStep] at hstep
  split at hstep
  case h_1 ids connection session hphase hkind =>
    obtain rfl := Option.some.inj hstep
    have hmet := h.met i c hc
    have hgone := h.gone i c hc
    rw [hphase] at hmet hgone
    have hpublished : ∀ job, s.Published job → ∃ t,
        (s.tasks ++ [Task.new connection session])[job]? = some t ∧ t.published = true := by
      rintro job ⟨t, ht, hpub⟩
      exact ⟨t, Pool.getElem?_add_left ht, hpub⟩
    have hfresh : ∀ (k : ℕ) (d : Call) (job : ℕ), s.calls[k]? = some d → d.phase.job = some job →
        job < s.tasks.length := by
      intro k d job hd hjob
      obtain ⟨_, _, -, ht⟩ := h.spawned k d job hd hjob
      exact (List.getElem?_eq_some_iff.mp ht).1
    refine ⟨h.nodup, fun job hin => hpublished job (h.published job hin),
      fun k d hd job hin => hpublished job ?_, fun k d hd job hin => ?_,
      fun k d job hd hjob => ?_, fun k k' d d' job hd hd' hjob hjob' => ?_,
      fun job t ht htold hended => ?_⟩
    · rcases Pool.getElem?_set hd with ⟨-, rfl⟩ | ⟨-, hd⟩
      · exact hmet job (List.mem_append_left _ hin)
      · exact h.met k d hd job hin
    · rcases Pool.getElem?_set hd with ⟨-, rfl⟩ | ⟨-, hd⟩
      · exact hgone job hin
      · exact h.gone k d hd job hin
    · rcases Pool.getElem?_set hd with ⟨-, rfl⟩ | ⟨-, hd⟩
      · obtain rfl := Option.some.inj hjob
        exact ⟨connection, session, hkind, Pool.getElem?_added _ _⟩
      · obtain ⟨connection', session', hkind', ht⟩ := h.spawned k d job hd hjob
        exact ⟨connection', session', hkind', Pool.getElem?_add_left ht⟩
    · rcases Pool.getElem?_set hd with ⟨rfl, rfl⟩ | ⟨-, hd⟩
      · rcases Pool.getElem?_set hd' with ⟨rfl, -⟩ | ⟨-, hd'⟩
        · rfl
        · obtain rfl := Option.some.inj hjob
          exact absurd (hfresh k' d' _ hd' hjob') (Nat.lt_irrefl _)
      · rcases Pool.getElem?_set hd' with ⟨-, rfl⟩ | ⟨-, hd'⟩
        · obtain rfl := Option.some.inj hjob'
          exact absurd (hfresh k d _ hd hjob) (Nat.lt_irrefl _)
        · exact h.distinct k k' d d' job hd hd' hjob hjob'
    · rcases Pool.getElem?_add ht with ⟨rfl, -⟩ | ht
      · exact .inr ⟨i, _, Pool.getElem?_set_self hc, List.mem_singleton_self _⟩
      · refine (h.accounted job t ht htold hended).imp_right fun hin => Pool.exists_set hc hin ?_
        rw [hphase]
        exact fun hnone => absurd hnone List.not_mem_nil
  case h_2 ids hphase hkind =>
    obtain rfl := Option.some.inj hstep
    exact h.moveOn hc (.inr rfl) (by rw [hphase]; rfl)
  case h_3 => cases hstep

/-- **A job is registered**, or its connection is gone. -/
theorem publish (h : Inv s) (hc : s.calls[i]? = some c)
    (hstep : s.callStep i c .publish = some s') : Inv s' := by
  dsimp only [State.callStep] at hstep
  split at hstep
  case h_1 ids job connection session hphase hkind =>
    have hown : c.phase.job = some job := by
      rw [hphase]
      rfl
    obtain ⟨connection', session', -, hnew⟩ := h.spawned i c job hc hown
    have hout : job ∉ s.jobs := by
      intro hin
      exact not_new_of_published (h.published job hin) _ _ hnew
    have hothers : ∀ (k : ℕ) (d : Call) (other : ℕ), k ≠ i → s.calls[k]? = some d →
        d.phase.job = some other → job ≠ other := by
      rintro k d other hki hd hother rfl
      exact hki (h.distinct k i d c job hd hc hother hown)
    split_ifs at hstep
    · obtain rfl := Option.some.inj hstep
      have hpublished : ∀ other, s.Published other ∨ other = job → ∃ t,
          (s.tasks.modify job fun t => { t with published := true })[other]? = some t ∧
            t.published = true := by
        rintro other hother
        by_cases hsame : other = job
        · subst hsame
          rw [List.getElem?_modify_eq, hnew]
          exact ⟨_, rfl, rfl⟩
        · obtain ⟨t, ht, hpub⟩ := hother.resolve_right hsame
          exact ⟨t, (List.getElem?_modify_ne _ _ (Ne.symm hsame)).trans ht, hpub⟩
      refine ⟨?_, fun other hin => hpublished other ?_, fun k d hd other hin => hpublished other ?_,
        fun k d hd other hin => ?_, fun k d other hd hother => ?_,
        fun k k' d d' other hd hd' hother hother' => ?_, fun other t' ht' htold hended => ?_⟩
      · refine List.nodup_append.mpr ⟨h.nodup, List.nodup_cons.mpr ⟨List.not_mem_nil,
          List.nodup_nil⟩, fun other hin x hx heq => hout ?_⟩
        rw [List.mem_singleton.mp hx] at heq
        exact heq ▸ hin
      · exact (List.mem_append.mp hin).imp (h.published other) List.mem_singleton.mp
      · rcases Pool.getElem?_set hd with ⟨-, rfl⟩ | ⟨-, hd⟩
        · exact .inr (List.mem_singleton.mp hin)
        · exact .inl (h.met k d hd other hin)
      · rcases Pool.getElem?_set hd with ⟨-, rfl⟩ | ⟨-, hd⟩
        · exact absurd hin List.not_mem_nil
        · intro hjob
          rcases List.mem_append.mp hjob with hjob | hjob
          · exact h.gone k d hd other hin hjob
          · obtain rfl := List.mem_singleton.mp hjob
            have hmet : other ∈ d.phase.met := d.phase.met_of_gone hin
            exact not_new_of_published (h.met k d hd other hmet) _ _ hnew
      · rcases Pool.getElem?_set hd with ⟨-, rfl⟩ | ⟨hki, hd⟩
        · cases hother
        · obtain ⟨connection', session', hkind', ht⟩ := h.spawned k d other hd hother
          exact ⟨connection', session', hkind',
            (List.getElem?_modify_ne _ _ (hothers k d other hki hd hother)).trans ht⟩
      · rcases Pool.getElem?_set hd with ⟨-, rfl⟩ | ⟨-, hd⟩
        · cases hother
        · rcases Pool.getElem?_set hd' with ⟨-, rfl⟩ | ⟨-, hd'⟩
          · cases hother'
          · exact h.distinct k k' d d' other hd hd' hother hother'
      · by_cases hsame : other = job
        · exact .inl (List.mem_append_right _ (List.mem_singleton.mpr hsame))
        · have ht := (List.getElem?_modify_ne _ _ (Ne.symm hsame)).symm.trans ht'
          refine (h.accounted other t' ht htold hended).imp (List.mem_append_left _)
            (inHand_set hc (fun x hx hxne => ?_) hsame)
          rw [hphase] at hx
          exact absurd (List.mem_singleton.mp hx) hxne
    · obtain rfl := Option.some.inj hstep
      have hlater : ∀ t, Later t { t with ended := true } :=
        fun t => ⟨rfl, rfl, id, fun hfalse => (by cases hfalse)⟩
      refine h.next (Pool.related_modify Later.refl hlater job) (List.Sublist.refl _)
        (calls_set s i c .ended rfl
          (fun _ hnone => absurd hnone List.not_mem_nil)
          fun _ hnone => absurd hnone List.not_mem_nil) (fun k d other hd hd' hother => ?_)
        fun other t' ht' _ hended hold => ?_
      · rcases Pool.getElem?_set hd' with ⟨-, rfl⟩ | ⟨hki, -⟩
        · cases hother
        · exact List.getElem?_modify_ne _ _ (hothers k d other hki hd hother)
      · have hne : other ≠ job := by
          rintro rfl
          obtain ⟨t, -, rfl⟩ := modify_self ht'
          cases hended
        refine hold.imp_right (inHand_set hc (fun x hx hxne => ?_) hne)
        rw [hphase] at hx
        exact absurd (List.mem_singleton.mp hx) hxne
  case h_2 => cases hstep

/-- **The gate of a task is opened**, or the task has ended at it. -/
theorem release (h : Inv s) (hc : s.calls[i]? = some c)
    (hstep : s.callStep i c .release = some s') : Inv s' := by
  dsimp only [State.callStep] at hstep
  split at hstep
  case h_1 job hphase =>
    have hpub : s.Published job :=
      h.met i c hc job (by rw [hphase]; exact List.mem_singleton_self _)
    split_ifs at hstep with hended
    · obtain rfl := Option.some.inj hstep
      refine h.move hc List.erase_sublist rfl (fun _ hnone => absurd hnone List.not_mem_nil)
        (fun _ hnone => absurd hnone List.not_mem_nil) fun other t ht hlives hold => ?_
      rw [hphase] at hold
      have hne : other ≠ job := by
        rintro rfl
        rw [ht, Option.any_some, hlives] at hended
        cases hended
      exact .inl ((List.mem_erase_of_ne hne).mpr (hold.resolve_right List.not_mem_nil))
    · obtain rfl := Option.some.inj hstep
      refine h.touch (fun t => ⟨rfl, rfl, id, id⟩) (not_new_of_published hpub)
        (List.Sublist.refl _) (calls_set s i c .ended rfl
          (fun _ hnone => absurd hnone List.not_mem_nil)
          fun _ hnone => absurd hnone List.not_mem_nil) fun other _ _ _ _ hold => ?_
      refine hold.imp_right fun hin => Pool.exists_set hc hin fun hx => ?_
      rw [hphase] at hx
      exact absurd hx List.not_mem_nil
  case h_2 => cases hstep

/-- **A task ends**, and leaves the map if it removes its record. -/
theorem endTask (h : Inv s) {job : ℕ} {jobs : List ℕ} (hjobs : jobs.Sublist s.jobs)
    (hothers : ∀ other ∈ s.jobs, other ≠ job → other ∈ jobs)
    (hlives : s.tasks[job]?.any (fun t => t.released || t.told) = true) :
    Inv ({ s with jobs := jobs }.endTask job) := by
  refine h.touch (fun t => ⟨rfl, rfl, id, fun hfalse => (by cases hfalse)⟩)
    (fun connection session hnew => ?_) hjobs (fun k d hd => .inl hd)
    fun other t' ht' _ hended hold => ?_
  · rw [hnew] at hlives
    cases hlives
  · have hne : other ≠ job := by
      rintro rfl
      obtain ⟨t, -, rfl⟩ := modify_self ht'
      cases hended
    exact hold.imp_left fun hin => hothers other hin hne

/-- **What one step preserves.** -/
theorem step (h : Inv s) {a : Event} (hstep : s.step a = some s') : Inv s' := by
  cases a with
  | connect connection =>
    dsimp only [State.step] at hstep
    split_ifs at hstep
    obtain rfl := Option.some.inj hstep
    exact ⟨h.nodup, h.published, h.met, h.gone, h.spawned, h.distinct, h.accounted⟩
  | call kind =>
    obtain rfl := Option.some.inj hstep
    refine h.next (Pool.related_refl Later.refl) (List.Sublist.refl _) (fun k d hd => ?_)
      (fun _ _ _ _ _ _ => rfl) fun _ _ _ _ _ hold => hold.imp_right Pool.exists_add
    rcases Pool.getElem?_add hd with ⟨-, rfl⟩ | hd
    · exact .inr ⟨rfl, fun _ hnone => absurd hnone List.not_mem_nil,
        fun _ hnone => absurd hnone List.not_mem_nil⟩
    · exact .inl hd
  | step i action =>
    obtain ⟨c, hc, hcall⟩ := Option.bind_eq_some_iff.mp hstep
    cases action with
    | enter => exact h.enter hc hcall
    | list => exact h.list hc hcall
    | take => exact h.take hc hcall
    | tell => exact h.tell hc hcall
    | proceed => exact h.proceed hc hcall
    | publish => exact h.publish hc hcall
    | release => exact h.release hc hcall
  | taskFails job =>
    obtain ⟨hlives, rfl⟩ := Option.ite_some_none_eq_some.mp hstep
    refine h.endTask List.erase_sublist (fun other hin hne => (List.mem_erase_of_ne hne).mpr hin) ?_
    obtain ⟨t, ht, hboth⟩ := (Option.any_eq_true _ _).mp hlives
    rw [ht, Option.any_some, (Bool.and_eq_true_iff.mp hboth).1, Bool.true_or]
  | taskStops job =>
    obtain ⟨hlives, rfl⟩ := Option.ite_some_none_eq_some.mp hstep
    refine h.endTask (List.Sublist.refl _) (fun other hin _ => hin) ?_
    obtain ⟨t, ht, hboth⟩ := (Option.any_eq_true _ _).mp hlives
    rw [ht, Option.any_some, (Bool.and_eq_true_iff.mp hboth).1, Bool.or_true]
  | taskPanics job =>
    obtain ⟨hlives, rfl⟩ := Option.ite_some_none_eq_some.mp hstep
    refine h.endTask (List.Sublist.refl _) (fun other hin _ => hin) ?_
    obtain ⟨t, ht, hboth⟩ := (Option.any_eq_true _ _).mp hlives
    rw [ht, Option.any_some, (Bool.and_eq_true_iff.mp hboth).1, Bool.true_or]

theorem init : Inv runtime.init :=
  ⟨List.nodup_nil, fun _ hin => absurd hin List.not_mem_nil, fun _ _ hc => (by cases hc),
    fun _ _ hc => (by cases hc), fun _ _ _ hc => (by cases hc), fun _ _ _ _ _ hc => (by cases hc),
    fun _ _ ht => (by cases ht)⟩

end Inv

/-! ### The jobs of one session -/

/-- The jobs are fewer, with their sessions. -/
structure Fewer (s s' : State) : Prop where
  jobs : s'.jobs.Sublist s.jobs
  sessions : ∀ job ∈ s'.jobs, ∀ session, (s'.tasks[job]?.any fun t => t.session = session) =
    s.tasks[job]?.any fun t => t.session = session

theorem Fewer.atMostOne {s s' : State} (h : Fewer s s') (hone : s.AtMostOne) : s'.AtMostOne := by
  intro session
  have hfilter : s'.jobsOf session =
      s'.jobs.filter fun job => s.tasks[job]?.any fun t => t.session = session :=
    List.filter_congr fun job hin => h.sessions job hin session
  rw [hfilter]
  exact Nat.le_trans (h.jobs.filter _).length_le (hone session)

/-- The task of a job that goes on is of the same session. -/
theorem session_modify {tasks : List Task} {f : Task → Task} (hf : ∀ t, (f t).session = t.session)
    (job other : ℕ) (session : String) :
    ((tasks.modify job f)[other]?.any fun t => t.session = session) =
      tasks[other]?.any fun t => t.session = session := by
  rw [List.getElem?_modify]
  cases tasks[other]? with
  | none => rfl
  | some t =>
    show decide ((if job = other then f t else t).session = session) = decide (t.session = session)
    split_ifs
    · rw [hf]
    · rfl

theorem Fewer.of_jobs {s s' : State} (hjobs : s'.jobs.Sublist s.jobs)
    (htasks : s'.tasks = s.tasks) :
    Fewer s s' :=
  ⟨hjobs, fun _ _ _ => by rw [htasks]⟩

theorem Fewer.of_modify {s s' : State} {job : ℕ} {f : Task → Task}
    (hf : ∀ t, (f t).session = t.session) (hjobs : s'.jobs.Sublist s.jobs)
    (htasks : s'.tasks = s.tasks.modify job f) : Fewer s s' :=
  ⟨hjobs, fun other _ session => by rw [htasks, session_modify hf]⟩

theorem Fewer.endTask (s : State) (job : ℕ) {jobs : List ℕ} (calls : List Call)
    (hjobs : jobs.Sublist s.jobs) :
    Fewer s { s with
      tasks := s.tasks.modify job fun t => { t with ended := true }
      jobs := jobs
      calls := calls } :=
  .of_modify (f := fun t => { t with ended := true }) (fun _ => rfl) hjobs rfl

variable {c : Call} {i : ℕ}

/-- **No other step of a call registers a job.** -/
theorem fewer_of_callStep {s s' : State} (h : Inv s) {action : Action}
    (hpublish : action ≠ .publish) (hstep : s.callStep i c action = some s') : Fewer s s' := by
  cases action with
  | enter =>
    dsimp only [State.callStep] at hstep
    split at hstep
    case h_1 | h_3 =>
      obtain rfl := Option.some.inj hstep
      exact .of_jobs (List.Sublist.refl _) rfl
    case h_2 =>
      split_ifs at hstep
      · obtain rfl := Option.some.inj hstep
        exact .of_jobs List.erase_sublist rfl
      · obtain rfl := Option.some.inj hstep
        exact .of_jobs (List.Sublist.refl _) rfl
    case h_4 =>
      split_ifs at hstep
      · obtain rfl := Option.some.inj hstep
        exact .of_jobs (List.Sublist.refl _) rfl
      · obtain rfl := Option.some.inj hstep
        exact .of_jobs (List.Sublist.refl _) rfl
    case h_5 =>
      obtain rfl := Option.some.inj hstep
      exact .of_jobs (List.nil_sublist _) rfl
    case h_6 => cases hstep
  | list =>
    dsimp only [State.callStep] at hstep
    split at hstep
    case h_1 =>
      obtain rfl := Option.some.inj hstep
      exact .of_jobs (List.Sublist.refl _) rfl
    case h_2 => cases hstep
  | take =>
    dsimp only [State.callStep] at hstep
    split at hstep
    case h_1 =>
      obtain rfl := Option.some.inj hstep
      exact .of_jobs List.filter_sublist rfl
    case h_2 => cases hstep
  | tell =>
    dsimp only [State.callStep] at hstep
    split at hstep
    case h_1 =>
      obtain rfl := Option.some.inj hstep
      exact .of_modify (f := fun t => { t with told := true }) (fun _ => rfl)
        (List.Sublist.refl _) rfl
    case h_2 => cases hstep
  | proceed =>
    dsimp only [State.callStep] at hstep
    split at hstep
    case h_1 =>
      obtain rfl := Option.some.inj hstep
      refine ⟨List.Sublist.refl _, fun job hin session => ?_⟩
      obtain ⟨t, ht, -⟩ := h.published job hin
      show ((s.tasks ++ _)[job]?.any fun t => t.session = session) = _
      rw [ht, Pool.getElem?_add_left ht]
    case h_2 =>
      obtain rfl := Option.some.inj hstep
      exact .of_jobs (List.Sublist.refl _) rfl
    case h_3 => cases hstep
  | publish => exact absurd rfl hpublish
  | release =>
    dsimp only [State.callStep] at hstep
    split at hstep
    case h_1 =>
      split_ifs at hstep
      · obtain rfl := Option.some.inj hstep
        exact .of_jobs List.erase_sublist rfl
      · obtain rfl := Option.some.inj hstep
        exact .of_modify (f := fun t => { t with released := true }) (fun _ => rfl)
          (List.Sublist.refl _) rfl
    case h_2 => cases hstep

/-- The start registers its job next to one of its session that it has not listed. -/
def State.overtakes (s : State) (c : Call) : Bool :=
  match c.kind with
  | .start connection session =>
    connection ∈ s.connections && (s.jobsOf session).any fun job => job ∉ c.phase.gone
  | _ => false

/-- The event is the registration of such a job. -/
def State.isOvertaking (s : State) : Event → Bool
  | .step i .publish => s.calls[i]?.any s.overtakes
  | _ => false

/-- **No start is overtaken**: when one registers its job, the jobs of its session in the map were
there when it listed them. -/
def NotOvertaken (s : State) (a : Event) : Prop :=
  s.isOvertaking a = false

instance (s : State) (a : Event) : Decidable (NotOvertaken s a) :=
  inferInstanceAs (Decidable (s.isOvertaking a = false))

/-- **The jobs of the sessions after one is registered.** -/
theorem jobsOf_publish {s : State} {job : ℕ} {connection session : String}
    (hnew : s.tasks[job]? = some (.new connection session)) (phase : Phase) (other : String) :
    ({ s with
      tasks := s.tasks.modify job fun t => { t with published := true }
      jobs := s.jobs ++ [job] }.goTo i c phase).jobsOf other =
        s.jobsOf other ++ if session = other then [job] else [] := by
  have hold : ∀ x, ((s.tasks.modify job fun t => { t with published := true })[x]?.any
      fun t : Task => t.session = other) = (s.tasks[x]?.any fun t : Task => t.session = other) :=
    fun x => session_modify (f := fun t => { t with published := true }) (fun _ => rfl) job x other
  show (s.jobs ++ [job]).filter _ = _
  rw [List.filter_append]
  refine congrArg₂ (· ++ ·) (List.filter_congr fun x _ => hold x) ?_
  have hself : ((s.tasks.modify job fun t => { t with published := true })[job]?.any
      fun t : Task => t.session = other) = decide (session = other) := by
    rw [hold, hnew]
    rfl
  show [job].filter (fun x => (s.tasks.modify job fun t => { t with published := true })[x]?.any
    fun t : Task => t.session = other) = _
  rw [List.filter_singleton, hself]
  by_cases hsame : session = other
  · rw [decide_eq_true hsame, if_pos hsame]
    rfl
  · rw [decide_eq_false hsame, if_neg hsame]
    rfl

theorem publish_cases {s s' : State} (hstep : s.callStep i c .publish = some s') :
    ∃ ids job connection session, c.phase = .spawned ids job ∧ c.kind = .start connection session ∧
      (connection ∈ s.connections ∧ s' = { s with
          tasks := s.tasks.modify job fun t => { t with published := true }
          jobs := s.jobs ++ [job] }.goTo i c (.published job) ∨
        connection ∉ s.connections ∧ s' = { s with
          tasks := s.tasks.modify job fun t => { t with ended := true } }.goTo i c .ended) := by
  dsimp only [State.callStep] at hstep
  split at hstep
  case h_1 ids job connection session hphase hkind =>
    refine ⟨ids, job, connection, session, hphase, hkind, ?_⟩
    split_ifs at hstep with hin
    · exact .inl ⟨hin, (Option.some.inj hstep).symm⟩
    · exact .inr ⟨hin, (Option.some.inj hstep).symm⟩
  case h_2 => cases hstep

/-- **One step keeps the jobs apart exactly when it does not overtake.** -/
theorem atMostOne_step {s s' : State} (h : Inv s) {a : Event} (hstep : s.step a = some s')
    (hone : s.AtMostOne) : s'.AtMostOne ↔ NotOvertaken s a := by
  cases a with
  | connect connection =>
    refine iff_of_true ?_ rfl
    dsimp only [State.step] at hstep
    split_ifs at hstep
    obtain rfl := Option.some.inj hstep
    exact hone
  | call kind =>
    refine iff_of_true ?_ rfl
    obtain rfl := Option.some.inj hstep
    exact hone
  | taskFails job =>
    refine iff_of_true ?_ rfl
    obtain ⟨-, rfl⟩ := Option.ite_some_none_eq_some.mp hstep
    exact (Fewer.endTask s job s.calls List.erase_sublist).atMostOne hone
  | taskStops job | taskPanics job =>
    refine iff_of_true ?_ rfl
    obtain ⟨-, rfl⟩ := Option.ite_some_none_eq_some.mp hstep
    exact (Fewer.endTask s job s.calls (List.Sublist.refl _)).atMostOne hone
  | step i action =>
    obtain ⟨c, hc, hcall⟩ := Option.bind_eq_some_iff.mp hstep
    by_cases hpublish : action = .publish
    · subst hpublish
      have hcond : NotOvertaken s (.step i .publish) ↔ s.overtakes c = false := by
        rw [NotOvertaken, State.isOvertaking, hc, Option.any_some]
      obtain ⟨ids, job, connection, session, hphase, hkind, hcases⟩ := publish_cases hcall
      obtain ⟨_, _, hkind', hnew⟩ := h.spawned i c job hc (by rw [hphase]; rfl)
      obtain ⟨rfl, rfl⟩ := Kind.start.inj (hkind.symm.trans hkind')
      have hgone := h.gone i c hc
      rw [hcond, State.overtakes, hkind]
      dsimp only
      rcases hcases with ⟨hin, rfl⟩ | ⟨hout, rfl⟩
      · rw [decide_eq_true hin, Bool.true_and, List.any_eq_false]
        constructor
        · intro hnext other hother
          have hlength := hnext session
          rw [jobsOf_publish hnew, if_pos rfl, List.length_append, List.length_singleton] at hlength
          rw [List.eq_nil_of_length_eq_zero (Nat.le_zero.mp (Nat.le_of_succ_le_succ hlength))]
            at hother
          cases hother
        · intro hfound other
          rw [jobsOf_publish hnew]
          split_ifs with hsame
          · subst hsame
            have hnone : s.jobsOf session = [] := by
              refine List.eq_nil_iff_forall_not_mem.mpr fun x hx => ?_
              have hlisted : x ∈ c.phase.gone := by
                have hnot := hfound x hx
                rwa [decide_eq_true_eq, not_not] at hnot
              exact hgone x hlisted (List.mem_of_mem_filter hx)
            rw [hnone]
            exact Nat.le_refl 1
          · rw [List.append_nil]
            exact hone other
      · refine iff_of_true ?_ (by rw [decide_eq_false hout, Bool.false_and])
        exact (Fewer.endTask s job _ (List.Sublist.refl _)).atMostOne hone
    · refine iff_of_true ((fewer_of_callStep h hpublish hcall).atMostOne hone) ?_
      cases action with
      | publish => exact absurd rfl hpublish
      | enter => rfl
      | list => rfl
      | take => rfl
      | tell => rfl
      | proceed => rfl
      | release => rfl

/-- **The jobs are in order**: a session has at most one, and a collector that was let go and has
not ended is registered, or is told to stop: its shutdown was sent, or a call has its record to
send it. -/
structure InOrder (s : State) : Prop where
  atMostOne : s.AtMostOne
  accounted : ∀ (job : ℕ) (t : Task), s.tasks[job]? = some t → t.released = true →
    t.ended = false → job ∈ s.jobs ∨ t.told = true ∨
      ∃ (i : ℕ) (c : Call) (ids records : List ℕ), s.calls[i]? = some c ∧
        c.phase = .stopping ids records ∧ job ∈ records

theorem Inv.inOrder {s : State} (h : Inv s) (hone : s.AtMostOne) : InOrder s := by
  refine ⟨hone, fun job t ht hreleased hended => ?_⟩
  cases htold : t.told with
  | true => exact .inr (.inl rfl)
  | false =>
    rcases h.accounted job t ht htold hended with hin | ⟨i, c, hc, hhand⟩
    · exact .inl hin
    · cases hphase : c.phase with
      | stopping ids records =>
        rw [hphase] at hhand
        exact .inr (.inr ⟨i, c, ids, records, hc, hphase, hhand⟩)
      | spawned ids other =>
        rw [hphase] at hhand
        obtain rfl := List.mem_singleton.mp hhand
        obtain ⟨_, _, -, hnew⟩ := h.spawned i c job hc (by rw [hphase]; rfl)
        obtain rfl := Option.some.inj (ht.symm.trans hnew)
        cases hreleased
      | begun => rw [hphase] at hhand; cases hhand
      | looking => rw [hphase] at hhand; cases hhand
      | listed ids => rw [hphase] at hhand; cases hhand
      | published other => rw [hphase] at hhand; cases hhand
      | ended => rw [hphase] at hhand; cases hhand

/-- **One job for a session.**  In a run the jobs are in order at every moment exactly when no
start is overtaken: when one registers its job, no other job of its session is in the map that
was not there when it listed them. -/
theorem unique_iff {events : List Event} {s : State} (h : runtime.run events = some s) :
    (∀ (before : List Event) (s' : State), before <+: events → runtime.run before = some s' →
      InOrder s') ↔ runtime.Meets NotOvertaken events := by
  constructor
  · intro horder
    have key : ∀ (as : List Event) (m : State), Inv m → m.AtMostOne →
        (∀ (before : List Event) (s' : State), before <+: as → runtime.runFrom m before = some s' →
          s'.AtMostOne) → runtime.runFrom m as = some s → runtime.MeetsFrom NotOvertaken m as := by
      intro as
      induction as with
      | nil => exact fun _ _ _ _ _ => trivial
      | cons a as ih =>
        intro m hinv hone hall hrun
        obtain ⟨next, hstep, hrest⟩ := runtime.runFrom_cons_eq_some hrun
        have hnext : next.AtMostOne := by
          refine hall [a] next (List.cons_prefix_cons.mpr ⟨rfl, List.nil_prefix⟩) ?_
          rw [Machine.runFrom_cons, hstep]
          rfl
        refine ⟨(atMostOne_step hinv hstep hone).mp hnext, fun s' hs' => ?_⟩
        obtain rfl := Option.some.inj (hstep.symm.trans hs')
        refine ih next (hinv.step hstep) hnext (fun before s' hprefix hbefore => ?_) hrest
        refine hall (a :: before) s' (List.cons_prefix_cons.mpr ⟨rfl, hprefix⟩) ?_
        rw [Machine.runFrom_cons, hstep]
        exact hbefore
    exact key events runtime.init Inv.init (fun _ => Nat.zero_le 1)
      (fun before s' hprefix hbefore => (horder before s' hprefix hbefore).atMostOne) h
  · rintro hmeets before s' ⟨after, rfl⟩ hbefore
    have hinv : Inv s' ∧ s'.AtMostOne := Machine.runFrom_invariant_of
      (I := fun s => Inv s ∧ s.AtMostOne)
      (fun _ _ _ hinv hok hstep =>
        ⟨hinv.1.step hstep, (atMostOne_step hinv.1 hstep hinv.2).mpr hok⟩)
      ⟨Inv.init, fun _ => Nat.zero_le 1⟩ (Machine.meetsFrom_append hmeets hbefore).1 hbefore
    exact hinv.1.inOrder hinv.2

/-- Two starts of a session overlap. -/
def overlapping : List Event :=
  [.connect "c", .call (.start "c" "s"), .call (.start "c" "s"), .step 0 .enter, .step 1 .enter,
    .step 0 .list, .step 1 .list, .step 0 .take, .step 1 .take, .step 0 .proceed, .step 1 .proceed,
    .step 0 .publish, .step 1 .publish, .step 0 .release, .step 1 .release]

/-- One start of a session follows the other. -/
def oneByOne : List Event :=
  [.connect "c", .call (.start "c" "s"), .step 0 .enter, .step 0 .list, .step 0 .take,
    .step 0 .proceed, .step 0 .publish, .step 0 .release, .call (.start "c" "s"), .step 1 .enter,
    .step 1 .list, .step 1 .take, .step 1 .tell, .taskStops 0, .step 1 .proceed, .step 1 .publish,
    .step 1 .release]

/-- The job of the first start is replaced by that of the second. -/
theorem unique_iff_oneByOne : ∃ s, runtime.run oneByOne = some s ∧ s.jobsOf "s" = [1] ∧
    InOrder s := by
  have hrun : ((runtime.run oneByOne).any fun s => s.jobsOf "s" = [1]) = true := by
    decide +kernel
  obtain ⟨s, hs, hjobs⟩ := Option.any_eq_true _ _ |>.mp hrun
  exact ⟨s, hs, of_decide_eq_true hjobs,
    (unique_iff hs).mpr (by decide +kernel) oneByOne s (List.prefix_refl _) hs⟩

/-- Two starts that overlap leave two jobs. -/
theorem overlapping_starts : ¬ ∀ (events : List Event) (s : State),
    runtime.run events = some s → ∀ session, (s.jobsOf session).length ≤ 1 := by
  intro h
  have hrun : ((runtime.run overlapping).any fun s => s.jobsOf "s" = [0, 1]) = true := by
    decide +kernel
  obtain ⟨s, hs, hjobs⟩ := Option.any_eq_true _ _ |>.mp hrun
  have hle := h overlapping s hs "s"
  rw [of_decide_eq_true hjobs] at hle
  exact absurd hle (by decide)

end TelemetryJobs
end Remote
end HelmSsh
