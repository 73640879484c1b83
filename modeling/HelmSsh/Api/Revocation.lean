/-
# Revoking sessions of the API server

`ApiServerHandle::update_allowed_sessions` (`src-tauri/src/api_server/mod.rs`)
replaces the cache of allowed sessions, requests the cancel of the active jobs of
other sessions, and then disconnects the automation connections that it finds for
other sessions.  The connections are listed once (`listConnections`), so what is
opened later is left to the re-check of the task that opens it.

The machine interleaves the tasks of `HelmSsh.Api.Server` with updates, and with
`replace_allowed_sessions_cache` alone, which the desktop commands call before
they reconcile the server; both run under the server's lock, one at a time.  The
update of the execution limiter changes nothing here.

* `Clean.step` and `CleanSince.step` — what a step keeps of the invariant of
  `HelmSsh.Api.Cleanup`, for the sessions that are allowed now and for those that
  were authorized since an update returned;
* `revocation_complete` — once an update has returned and the requests and jobs in
  flight at that time have ended, no automation connection, forward or active job
  belongs to a session that was not authorized since, provided that no task was
  dropped or canceled while a cleanup depended on it
  (`RevocationState.KeepsCleanup`): the disconnect of a connection that nothing else
  would close, the forwards of a connection whose record the task had removed, or
  the spawn of a job it had created;
* `dropped_recheck_leaks_connection` — what a dropped disconnect leaves behind.
-/

import HelmSsh.Machine
import HelmSsh.Api.Cleanup

namespace HelmSsh
namespace Api

/-- Where an update of the allowed sessions is. -/
inductive Sweep where
  | idle
  /-- The cache is replaced. -/
  | replaced
  /-- `cancel_disallowed`, with the jobs it still has to look at. -/
  | cancelingJobs (pending : List ℕ)
  /-- `shutdown_automation_connections`, with the ids it still has to disconnect. -/
  | disconnectingAll (pending : List ℕ)
  /-- The record of `connection` is removed and its children are not closed. -/
  | closingChildren (connection : ℕ) (pending : List ℕ)
  deriving DecidableEq

/-- The server with an update. -/
structure RevocationState where
  api : ApiState
  sweep : Sweep
  /-- The last change of the cache was an update that has returned. -/
  settled : Bool
  /-- The sessions that were allowed at some time since the last update returned. -/
  authorized : List String
  deriving DecidableEq

/-- One step of a task or of an update. -/
inductive RevocationEvent where
  | newRequest (session : String)
  | task (i : ℕ) (e : TaskEvent)
  /-- `replace_allowed_sessions_cache` alone. -/
  | syncCache (allowed : List String)
  /-- `update_allowed_sessions` replaces the cache. -/
  | beginUpdate (allowed : List String)
  | listJobs
  | cancelJob
  | listConnections
  | disconnectNext
  | closeNext
  | endUpdate
  deriving DecidableEq

namespace RevocationState

/-- A server that was just started with the sessions `allowed`. -/
def init (allowed : List String) : RevocationState :=
  { api := .init allowed, sweep := .idle, settled := true, authorized := allowed }

/-- `cancel_disallowed` looks at the job `j`. -/
def cancelDisallowed (s : RevocationState) (j : ℕ) : ApiState :=
  s.api.modifyJob j fun r =>
    if r.status.isActive ∧ r.sessionId ∉ s.api.allowed then r.requestCancel.1 else r

/-- The connections that `shutdown_automation_connections` lists. -/
def revokedIds (s : RevocationState) : List ℕ :=
  (s.api.connections.filter fun c => c.session ∉ s.api.allowed).map Connection.id

/-- The effect of a step. -/
def step (s : RevocationState) : RevocationEvent → Option RevocationState
  | .newRequest session => some { s with api := s.api.newRequest session }
  | .task i e =>
    match e, s.api.tasks[i]? with
    | .abort, _ => none
    | e, some t => (s.api.taskStep i t e).map fun api => { s with api := api }
    | _, none => none
  | .syncCache allowed =>
    if s.sweep = .idle then
      some
        { api := { s.api with allowed := allowed }
          sweep := .idle
          settled := false
          authorized := s.authorized ++ allowed }
    else none
  | .beginUpdate allowed =>
    if s.sweep = .idle then
      some
        { api := { s.api with allowed := allowed }
          sweep := .replaced
          settled := false
          authorized := s.authorized ++ allowed }
    else none
  | .listJobs =>
    if s.sweep = .replaced then
      some { s with sweep := .cancelingJobs (List.range s.api.jobs.length) }
    else none
  | .cancelJob =>
    match s.sweep with
    | .cancelingJobs (j :: pending) =>
      some { s with api := s.cancelDisallowed j, sweep := .cancelingJobs pending }
    | _ => none
  | .listConnections =>
    match s.sweep with
    | .cancelingJobs [] => some { s with sweep := .disconnectingAll s.revokedIds }
    | _ => none
  | .disconnectNext =>
    match s.sweep with
    | .disconnectingAll (id :: pending) =>
      if id ∈ s.api.connections.map Connection.id then
        some { s with api := s.api.removeConnection id, sweep := .closingChildren id pending }
      else some { s with sweep := .disconnectingAll pending }
    | _ => none
  | .closeNext =>
    match s.sweep with
    | .closingChildren id pending =>
      some { s with api := s.api.cancelForwards id, sweep := .disconnectingAll pending }
    | _ => none
  | .endUpdate =>
    match s.sweep with
    | .disconnectingAll [] =>
      some
        { api := { s.api with generation := s.api.generation + 1 }
          sweep := .idle
          settled := true
          authorized := s.api.allowed }
    | _ => none

end RevocationState

/-- The server at work with updates of its allowed sessions. -/
def revocationMachine (allowed : List String) : Machine RevocationState RevocationEvent where
  init := .init allowed
  step := RevocationState.step

/-! ### Who closes what -/

/-- The update is going to disconnect `c`.  Without an update, and with a cache
that no update has taken up, every connection is left to the next one. -/
def Sweep.covers (settled : Bool) (c : Connection) : Sweep → Bool
  | .idle => !settled
  | .replaced | .cancelingJobs _ => true
  | .disconnectingAll pending | .closingChildren _ pending => c.id ∈ pending

/-- The connection whose forwards the update still has to cancel. -/
def Sweep.closes : Sweep → Option ℕ
  | .closingChildren id _ => some id
  | _ => none

/-- The sessions that an event authorizes. -/
def RevocationEvent.authorizes : RevocationEvent → List String
  | .syncCache allowed | .beginUpdate allowed => allowed
  | _ => []

namespace RevocationState

/-- Nobody needs the task `i` to disconnect `c`: its session is allowed, or it was
since the last update and the current one disconnects it, or another task does. -/
def CoveredWithout (s : RevocationState) (i : ℕ) (c : Connection) : Prop :=
  c.session ∈ s.api.allowed ∨
    (c.session ∈ s.authorized ∧ s.sweep.covers s.settled c = true) ∨
    ∃ k ∈ List.range s.api.tasks.length, k ≠ i ∧ s.api.tasks[k]?.any (·.revokes c) = true

instance (s : RevocationState) (i : ℕ) (c : Connection) : Decidable (s.CoveredWithout i c) :=
  inferInstanceAs (Decidable (_ ∨ _ ∨ ∃ k ∈ List.range _, _))

/-- No cleanup depends on the task `t` at `i`. -/
def DropSafe (s : RevocationState) (i : ℕ) (t : Task) : Prop :=
  (∀ c ∈ s.api.connections, t.revokes c = true → s.CoveredWithout i c) ∧
    (∀ f ∈ s.api.forwards, t.phase.closes ≠ some f.connection) ∧
    ∀ j ∈ t.phase.creates, ∀ r ∈ s.api.jobs[j]?, r.status.isTerminal = true

instance (s : RevocationState) (i : ℕ) (t : Task) : Decidable (s.DropSafe i t) :=
  inferInstanceAs (Decidable (_ ∧ _ ∧ _))

/-- The forwards that the next disconnect of an update leaves without connection are
of sessions that were authorized until it. -/
def DisconnectSafe (s : RevocationState) : Prop :=
  match s.sweep with
  | .disconnectingAll (id :: _) =>
    ∀ f ∈ s.api.forwards, f.connection = id → f.session ∈ s.authorized
  | _ => True

instance (s : RevocationState) : Decidable s.DisconnectSafe := by
  unfold DisconnectSafe
  split <;> infer_instance

/-- No task is dropped or canceled while a cleanup depends on it, and no update takes
over a disconnect that an earlier one has left to a task. -/
def KeepsCleanup (s : RevocationState) : RevocationEvent → Prop
  | .task i .drop | .task i .cancelSeen => ∀ t ∈ s.api.tasks[i]?, s.DropSafe i t
  | .disconnectNext => s.DisconnectSafe
  | _ => True

instance (s : RevocationState) (e : RevocationEvent) : Decidable (s.KeepsCleanup e) := by
  unfold KeepsCleanup
  split <;> infer_instance

/-- The update is about to cancel the forward `f`, which satisfies `P`. -/
def Closes (s : RevocationState) (P : Forward → Prop) (f : Forward) : Prop :=
  s.sweep.closes = some f.connection ∧ P f

/-! ### One step -/

variable {s s' : RevocationState} {covers : Connection → Prop} {P : Forward → Prop}
  {A : List String} {g : ℕ}

theorem newRequest_clean (h : CleanInv covers (s.Closes P) A g s.api) (session : String) :
    CleanInv covers (s.Closes P) A g (s.api.newRequest session) :=
  h.addTask rfl (fun _ => .inr rfl)

theorem task_clean (h : CleanInv covers (s.Closes P) A g s.api) {i : ℕ} {t : Task} {e : TaskEvent}
    {api : ApiState} (ht : s.api.tasks[i]? = some t) (hstep : s.api.taskStep i t e = some api)
    (habort : e ≠ .abort) (hkeep : s.KeepsCleanup (.task i e))
    (hcovers : ∀ c : Connection, c.session ∈ s.authorized → s.sweep.covers s.settled c = true →
      c.session ∈ A ∨ covers c) : CleanInv covers (s.Closes P) A g api := by
  have hsafe : s.DropSafe i t → t.phase ≠ .done → EndSafe covers A s.api i t := by
    intro hdrop halive
    constructor
    case cover =>
      intro c hc hrev
      rcases hdrop.1 c hc hrev with hcov | ⟨hauth, hcov⟩ | ⟨k, -, hk, hany⟩
      · exact .inl (h.allowed_sub _ hcov)
      · exact (hcovers c hauth hcov).imp_right .inl
      · obtain ⟨u, hu, hrev⟩ := (Option.any_eq_true _ _).mp hany
        exact .inr (.inr ⟨k, u, hk, hu, hrev⟩)
    case close => exact hdrop.2.1
    case create =>
      intro j hphase r hr
      exact hdrop.2.2 j (by rw [hphase]; rfl) r hr
    case alive => exact halive
  refine h.taskStep ht hstep habort ?_
  rintro (rfl | rfl)
  · refine hsafe (hkeep t ht) fun hdone => ?_
    simp [ApiState.taskStep, hdone, TaskPhase.awaits] at hstep
  · refine hsafe (hkeep t ht) fun hdone => ?_
    cases hjob : t.job <;> simp [ApiState.taskStep, hdone, hjob, TaskPhase.selectsCancel] at hstep

/-- The events of an update between the replacement of the cache and its return. -/
def isSweep : RevocationEvent → Bool
  | .listJobs | .cancelJob | .listConnections | .disconnectNext | .closeNext => true
  | _ => false

variable {e : RevocationEvent}

theorem sweep_clean (h : CleanInv covers (s.Closes P) A g s.api)
    (he : isSweep e = true) (hstep : s.step e = some s')
    (hP : ∀ id pending, e = .disconnectNext → s.sweep = .disconnectingAll (id :: pending) →
      ∀ f ∈ s.api.forwards, f.connection = id → P f) :
    CleanInv covers (s'.Closes P) A g s'.api := by
  cases e with
  | listJobs =>
    obtain ⟨hsweep, rfl⟩ := Option.ite_some_none_eq_some.mp hstep
    exact h.takeOver (fun c _ hcov => .inr (.inl hcov))
      (fun f _ hclose => by simp [Closes, hsweep, Sweep.closes] at hclose)
  | cancelJob =>
    simp only [step] at hstep
    split at hstep
    next j pending hsweep =>
      obtain rfl := Option.some.inj hstep
      have hcanceled : CleanInv covers (s.Closes P) A g (s.cancelDisallowed j) :=
        h.extendJob j fun r => by
          split_ifs
          · exact r.extends_requestCancel
          · exact .refl r
      exact hcanceled.takeOver (fun c _ hcov => .inr (.inl hcov))
        (fun f _ hclose => by simp [Closes, hsweep, Sweep.closes] at hclose)
    · cases hstep
  | listConnections =>
    simp only [step] at hstep
    split at hstep
    next hsweep =>
      obtain rfl := Option.some.inj hstep
      exact h.takeOver (fun c _ hcov => .inr (.inl hcov))
        (fun f _ hclose => by simp [Closes, hsweep, Sweep.closes] at hclose)
    · cases hstep
  | disconnectNext =>
    simp only [step] at hstep
    split at hstep
    next id pending hsweep =>
      split_ifs at hstep <;> obtain rfl := Option.some.inj hstep
      · have hclosing : CleanInv covers (fun f => id = f.connection ∧ P f) A g s.api :=
          h.takeOver (fun c _ hcov => .inr (.inl hcov))
            (fun f _ hclose => by simp [Closes, hsweep, Sweep.closes] at hclose)
        refine (hclosing.removeConnection id fun f hf hfc _ => ?_).takeOver
          (fun c _ hcov => .inr (.inl hcov)) (fun f _ hclose => .inl ?_)
        · exact ⟨hfc.symm, hP id pending rfl hsweep f hf hfc⟩
        · exact ⟨congrArg some hclose.1, hclose.2⟩
      · exact h.takeOver (fun c _ hcov => .inr (.inl hcov))
          (fun f _ hclose => by simp [Closes, hsweep, Sweep.closes] at hclose)
    · cases hstep
  | closeNext =>
    simp only [step] at hstep
    split at hstep
    next id pending hsweep =>
      obtain rfl := Option.some.inj hstep
      refine (h.filterForwards _).takeOver (fun c _ hcov => .inr (.inl hcov))
        (fun f hf hclose => ?_)
      simp only [Closes, hsweep, Sweep.closes, Option.some.injEq] at hclose
      simp [hclose.1] at hf
    · cases hstep
  | _ => cases he

/-- A step of an update leaves no connection behind that it was going to disconnect. -/
theorem sweep_covers (he : isSweep e = true) (hstep : s.step e = some s') :
    ∀ c ∈ s'.api.connections, s.sweep.covers s.settled c = true →
      c.session ∈ s.api.allowed ∨ s'.sweep.covers s'.settled c = true := by
  intro c hc hcov
  cases e with
  | listJobs =>
    obtain ⟨-, rfl⟩ := Option.ite_some_none_eq_some.mp hstep
    exact .inr rfl
  | cancelJob =>
    simp only [step] at hstep
    split at hstep
    next j pending hsweep =>
      obtain rfl := Option.some.inj hstep
      exact .inr rfl
    · cases hstep
  | listConnections =>
    simp only [step] at hstep
    split at hstep
    next hsweep =>
      obtain rfl := Option.some.inj hstep
      by_cases hallowed : c.session ∈ s.api.allowed
      · exact .inl hallowed
      · refine .inr ?_
        rw [Sweep.covers, decide_eq_true_eq]
        exact List.mem_map_of_mem (List.mem_filter.mpr ⟨hc, by simpa using hallowed⟩)
    · cases hstep
  | disconnectNext =>
    simp only [step] at hstep
    split at hstep
    next id pending hsweep =>
      simp only [hsweep, Sweep.covers, List.mem_cons, decide_eq_true_eq] at hcov
      split_ifs at hstep with hid <;> obtain rfl := Option.some.inj hstep <;> refine .inr ?_ <;>
        rw [Sweep.covers, decide_eq_true_eq] <;> refine hcov.resolve_left fun hcid => ?_
      · simp [ApiState.removeConnection, hcid] at hc
      · exact hid (hcid ▸ List.mem_map_of_mem hc)
    · cases hstep
  | closeNext =>
    simp only [step] at hstep
    split at hstep
    next id pending hsweep =>
      obtain rfl := Option.some.inj hstep
      rw [hsweep] at hcov
      exact .inr hcov
    · cases hstep
  | _ => cases he

/-- A step of an update changes neither the cache nor who is in flight. -/
theorem sweep_keeps (he : isSweep e = true) (hstep : s.step e = some s') :
    s'.api.allowed = s.api.allowed ∧ s'.api.generation = s.api.generation ∧
      s'.api.tasks = s.api.tasks ∧ s'.settled = s.settled ∧ s'.authorized = s.authorized := by
  cases e with
  | listJobs | cancelJob | listConnections | disconnectNext | closeNext =>
    simp only [step] at hstep
    repeat' split at hstep
    all_goals cases hstep <;> exact ⟨rfl, rfl, rfl, rfl, rfl⟩
  | _ => cases he

/-! ### The sessions that are allowed now -/

/-- The generation from which on a task has seen the cache as the last update left
it. -/
def settledFrom (s : RevocationState) : ℕ :=
  if s.settled then s.api.generation else s.api.generation + 1

/-- The cleanups for the sessions that are allowed now, counting those of the update. -/
structure Clean (s : RevocationState) : Prop where
  clean : CleanInv (fun c => s.sweep.covers s.settled c = true) (s.Closes fun _ => True)
    s.api.allowed s.settledFrom s.api
  generation_le : ∀ (i : ℕ) (t : Task), s.api.tasks[i]? = some t →
    t.generation ≤ s.api.generation
  authorized_sub : s.settled = true → ∀ session ∈ s.authorized, session ∈ s.api.allowed

theorem clean_init (allowed : List String) : (init allowed).Clean := by
  constructor
  case clean => constructor <;> simp [init, ApiState.init]
  all_goals simp [init, ApiState.init]

theorem Clean.replaceCache (h : s.Clean) (hidle : s.sweep = .idle) (allowed : List String)
    {sweep : Sweep} {authorized : List String} (hcovers : ∀ c, sweep.covers false c = true) :
    Clean { api := { s.api with allowed := allowed }, sweep := sweep, settled := false,
            authorized := authorized } where
  clean :=
    { h.clean with
      allowed_sub := fun session hsession => hsession
      covered := fun c _ => .inr (.inl (hcovers c))
      forward_ok := fun f hf => by
        refine (h.clean.forward_ok f hf).imp_right (Or.imp_left fun hclose => ?_)
        rw [Closes, hidle] at hclose
        cases hclose.1
      fresh := fun k t ht hgen => by
        have hle := h.generation_le k t ht
        simp only [settledFrom, Bool.false_eq_true, if_false] at hgen
        omega }
  generation_le := h.generation_le
  authorized_sub := fun hsettled => by cases hsettled

/-- The update returns: every task so far is from before it. -/
theorem Clean.endUpdate (h : s.Clean) (hsweep : s.sweep = .disconnectingAll []) :
    Clean { api := { s.api with generation := s.api.generation + 1 }, sweep := .idle,
            settled := true, authorized := s.api.allowed } where
  clean :=
    { h.clean with
      covered := fun c hc => by
        rcases h.clean.covered c hc with hcov | hcov | hcov
        · exact .inl hcov
        · simp [hsweep, Sweep.covers] at hcov
        · exact .inr (.inr hcov)
      forward_ok := fun f hf => by
        refine (h.clean.forward_ok f hf).imp_right (Or.imp_left fun hclose => ?_)
        simp [Closes, hsweep, Sweep.closes] at hclose
      fresh := fun k t ht hgen => by
        have hle := h.generation_le k t ht
        simp only [settledFrom, if_true] at hgen
        omega }
  generation_le := fun k t ht => Nat.le_succ_of_le (h.generation_le k t ht)
  authorized_sub := fun _ session hsession => hsession

/-- **Each step that keeps its cleanups keeps those for the allowed sessions.** -/
theorem Clean.step (h : s.Clean) (hkeep : s.KeepsCleanup e)
    (hstep : s.step e = some s') : s'.Clean := by
  by_cases hsweep : isSweep e = true
  · obtain ⟨hallowed, hgeneration, htasks, hsettled, hauthorized⟩ := sweep_keeps hsweep hstep
    have hfrom : s'.settledFrom = s.settledFrom := by
      rw [settledFrom, settledFrom, hgeneration, hsettled]
    refine ⟨?_, ?_, ?_⟩
    · rw [hallowed, hfrom]
      exact (sweep_clean h.clean hsweep hstep fun _ _ _ _ _ _ _ => trivial).takeOver
        (fun c hc hcov => (sweep_covers hsweep hstep c hc hcov).imp_right .inl)
        (fun f _ hclose => .inl hclose)
    · rw [htasks, hgeneration]
      exact h.generation_le
    · rw [hsettled, hauthorized, hallowed]
      exact h.authorized_sub
  · cases e with
    | newRequest session =>
      obtain rfl := Option.some.inj hstep
      refine ⟨newRequest_clean h.clean session, fun k u hu => ?_, h.authorized_sub⟩
      rcases Pool.getElem?_add hu with ⟨-, rfl⟩ | hold
      · exact Nat.le_refl _
      · exact h.generation_le k u hold
    | task i e =>
      simp only [RevocationState.step] at hstep
      split at hstep
      · cases hstep
      next t habort ht =>
        obtain ⟨api, hapi, rfl⟩ := Option.map_eq_some_iff.mp hstep
        obtain ⟨hallowed, hgeneration, -⟩ := ApiState.taskStep_frame hapi
        have hclean := task_clean h.clean ht hapi (fun hab => habort hab) hkeep
          (fun c _ hcov => .inr hcov)
        refine ⟨?_, fun k u hu => ?_, ?_⟩
        · rw [settledFrom, hgeneration, hallowed]
          exact hclean
        · obtain ⟨l, v, hv, -, hgen⟩ := ApiState.taskStep_origin ht hapi hu
          rw [hgeneration, hgen]
          exact h.generation_le l v hv
        · rw [hallowed]
          exact h.authorized_sub
      · cases hstep
    | syncCache allowed | beginUpdate allowed =>
      obtain ⟨hidle, rfl⟩ := Option.ite_some_none_eq_some.mp hstep
      exact h.replaceCache hidle allowed (fun c => rfl)
    | endUpdate =>
      simp only [RevocationState.step] at hstep
      split at hstep
      next hsweep =>
        obtain rfl := Option.some.inj hstep
        exact h.endUpdate hsweep
      · cases hstep
    | _ => exact (hsweep rfl).elim

/-! ### The sessions that were authorized since -/

/-- The cleanups for the sessions `A` that were authorized since an update returned,
which the tasks from the generation `g` on came after. -/
structure CleanSince (A : List String) (g : ℕ) (s : RevocationState) : Prop where
  clean : CleanInv (fun _ => False) (s.Closes fun f => f.session ∈ A) A g s.api
  authorized_sub : ∀ session ∈ s.authorized, session ∈ A

/-- When an update has returned, the sessions it allows are the authorized ones. -/
theorem Clean.since (h : s.Clean) (hidle : s.sweep = .idle) (hsettled : s.settled = true)
    (hallowed : ∀ session ∈ s.api.allowed, session ∈ A) :
    s.CleanSince A s.api.generation := by
  have hclean := h.clean
  rw [settledFrom, if_pos hsettled] at hclean
  refine ⟨(hclean.takeOver (fun c _ hcov => ?_) (fun f _ hclose => ?_)).authorize hallowed,
    fun session hsession => hallowed session (h.authorized_sub hsettled session hsession)⟩
  · rw [hidle, hsettled] at hcov
    cases hcov
  · rw [Closes, hidle] at hclose
    cases hclose.1

theorem CleanSince.replaceCache (h : s.CleanSince A g) {allowed : List String} {sweep : Sweep}
    (hidle : s.sweep = .idle) (hallowed : ∀ session ∈ allowed, session ∈ A) :
    CleanSince A g { api := { s.api with allowed := allowed }, sweep := sweep, settled := false,
                     authorized := s.authorized ++ allowed } where
  clean := (h.clean.takeOver (fun c _ hcov => .inr (.inl hcov)) (fun f _ hclose => by
    rw [Closes, hidle] at hclose
    cases hclose.1)).setAllowed hallowed
  authorized_sub := fun session hsession =>
    (List.mem_append.mp hsession).elim (h.authorized_sub session) (hallowed session)

/-- **Each step that keeps its cleanups keeps those for the sessions authorized
since.** -/
theorem CleanSince.step (h : s.CleanSince A g) (hkeep : s.KeepsCleanup e)
    (hauthorizes : ∀ session ∈ e.authorizes, session ∈ A) (hstep : s.step e = some s') :
    s'.CleanSince A g := by
  by_cases hsweep : isSweep e = true
  · obtain ⟨-, -, -, -, hauthorized⟩ := sweep_keeps hsweep hstep
    refine ⟨sweep_clean h.clean hsweep hstep ?_, ?_⟩
    · rintro id pending rfl hnext f hf hid
      have hsafe : s.DisconnectSafe := hkeep
      rw [DisconnectSafe, hnext] at hsafe
      exact h.authorized_sub _ (hsafe f hf hid)
    · rw [hauthorized]
      exact h.authorized_sub
  · cases e with
    | newRequest session =>
      obtain rfl := Option.some.inj hstep
      exact ⟨newRequest_clean h.clean session, h.authorized_sub⟩
    | task i e =>
      simp only [RevocationState.step] at hstep
      split at hstep
      · cases hstep
      next t habort ht =>
        obtain ⟨api, hapi, rfl⟩ := Option.map_eq_some_iff.mp hstep
        exact ⟨task_clean h.clean ht hapi (fun hab => habort hab) hkeep
          (fun c hauth _ => .inl (h.authorized_sub _ hauth)), h.authorized_sub⟩
      · cases hstep
    | syncCache allowed | beginUpdate allowed =>
      obtain ⟨hidle, rfl⟩ := Option.ite_some_none_eq_some.mp hstep
      exact h.replaceCache hidle hauthorizes
    | endUpdate =>
      simp only [RevocationState.step] at hstep
      split at hstep
      next hsweep =>
        obtain rfl := Option.some.inj hstep
        refine ⟨?_, h.clean.allowed_sub⟩
        refine { h.clean.takeOver (fun c _ hcov => .inr (.inl hcov)) (fun f _ hclose => ?_) with }
        simp [Closes, hsweep, Sweep.closes] at hclose
      · cases hstep
    | _ => exact (hsweep rfl).elim

/-! ### Whole runs -/

/-- Every automation connection, every forward over one and every active job belongs
to a session of `A`. -/
def Within (s : RevocationState) (A : List String) : Prop :=
  (∀ c ∈ s.api.connections, c.session ∈ A) ∧ (∀ f ∈ s.api.forwards, f.session ∈ A) ∧
    ∀ r ∈ s.api.jobs, r.status.isActive = true → r.sessionId ∈ A

instance (s : RevocationState) (A : List String) : Decidable (s.Within A) :=
  inferInstanceAs (Decidable (_ ∧ _ ∧ _))

/-- The requests and jobs from before the generation `g` have ended. -/
def Ended (s : RevocationState) (g : ℕ) : Prop :=
  ∀ t ∈ s.api.tasks, t.generation < g → t.phase = .done

instance (s : RevocationState) (g : ℕ) : Decidable (s.Ended g) :=
  inferInstanceAs (Decidable (∀ t ∈ s.api.tasks, _))

/-- Once the tasks from before the update have ended, those that are left are of
authorized sessions, and so is what they look after. -/
theorem CleanSince.within (h : s.CleanSince A g) (hended : s.Ended g) : s.Within A := by
  have hauthorized : ∀ (i : ℕ) (t : Task), s.api.tasks[i]? = some t → t.phase ≠ .done →
      ¬(t.phase = .accepted ∧ t.job = none) → t.session ∈ A := by
    intro i t ht hdone hbegun
    have hge : g ≤ t.generation :=
      Nat.le_of_not_lt fun hlt => hdone (hended t (List.mem_of_getElem? ht) hlt)
    rcases h.clean.fresh i t ht hge with hA | hdone' | hacc
    · exact hA
    · exact (hdone hdone').elim
    · exact (hbegun hacc).elim
  have hconnections : ∀ c ∈ s.api.connections, c.session ∈ A := by
    intro c hc
    rcases h.clean.covered c hc with hA | hfalse | ⟨i, t, ht, hrev⟩
    · exact hA
    · exact hfalse.elim
    · have hsession : c.session = t.session := by
        cases hphase : t.phase <;> simp only [Task.revokes, hphase, decide_eq_true_eq] at hrev
        case registered => exact hrev.symm
        case disconnecting => exact hrev.symm
        case removing id => exact (h.clean.uses_ok i t id ht (by rw [hphase]; rfl)).2 c hc hrev.symm
        all_goals cases hrev
      rw [hsession]
      refine hauthorized i t ht (fun hdone => ?_) (fun hacc => ?_)
      · simp [Task.revokes, hdone] at hrev
      · simp [Task.revokes, hacc.1] at hrev
  refine ⟨hconnections, fun f hf => ?_, fun r hr hactive => ?_⟩
  · rcases h.clean.forward_ok f hf with ⟨c, hc, -, hsession⟩ | hclose | ⟨i, t, ht, hclose, hsession⟩
    · exact hsession ▸ hconnections c hc
    · exact hclose.2
    · rw [← hsession]
      refine hauthorized i t ht (fun hdone => ?_) (fun hacc => ?_)
      · rw [hdone] at hclose
        cases hclose
      · rw [hacc.1] at hclose
        cases hclose
  · obtain ⟨j, hj⟩ := List.mem_iff_getElem?.mp hr
    obtain ⟨i, t, ht, hsession, ⟨hjob, hdone⟩ | hphase⟩ := h.clean.job_live j r hj hactive
    · rw [← hsession]
      exact hauthorized i t ht hdone (fun hacc => by simp [hjob] at hacc)
    · rw [← hsession]
      exact hauthorized i t ht (by simp [hphase]) (by simp [hphase])

end RevocationState

/-- **Revocation is complete** in every run that keeps its cleanups.  Let an update
have returned in the state `s`, and let the run go on to `s'`.  Once every request and
job that was in flight when the update returned has ended, no automation connection,
no forward over one and no active job belongs to a session outside of those that the
update allowed and those authorized since. -/
theorem revocation_complete {allowed : List String} {before after : List RevocationEvent}
    {s s' : RevocationState}
    (hok : (revocationMachine allowed).Meets RevocationState.KeepsCleanup (before ++ after))
    (hreturns : (revocationMachine allowed).run before = some s) (hidle : s.sweep = .idle)
    (hsettled : s.settled = true)
    (hrun : (revocationMachine allowed).runFrom s after = some s')
    (hended : s'.Ended s.api.generation) :
    s'.Within (s.api.allowed ++ after.flatMap RevocationEvent.authorizes) := by
  obtain ⟨hokBefore, hokAfter⟩ := Machine.meetsFrom_append hok hreturns
  have hclean : s.Clean := by
    refine Machine.run_invariant_of (RevocationState.clean_init allowed) ?_ hokBefore hreturns
    intro t e t' hclean hkeep hstep
    exact hclean.step hkeep hstep
  have hauthorizes : ∀ e ∈ after, ∀ session ∈ e.authorizes,
      session ∈ s.api.allowed ++ after.flatMap RevocationEvent.authorizes :=
    fun e he session hsession => List.mem_append_right _ (List.mem_flatMap.mpr ⟨e, he, hsession⟩)
  have hsince := hclean.since hidle hsettled
    (fun session hsession => List.mem_append_left
      (after.flatMap RevocationEvent.authorizes) hsession)
  have hsince' := Machine.runFrom_invariant_of (fun t e t' hsince hok hstep =>
    hsince.step hok.1 hok.2 hstep) hsince (hokAfter.and_event hauthorizes) hrun
  exact hsince'.within hended

/-! ### Runs -/

/-- A request dials for the session `a`, an update leaves only `b` allowed, and the
request registers its connection and re-checks its access. -/
def revokedWhileDialing : List RevocationEvent × List RevocationEvent :=
  ([.newRequest "a", .task 0 .verify, .task 0 (.startConnect false), .beginUpdate ["b"], .listJobs,
    .listConnections, .endUpdate],
   [.task 0 .register, .task 0 (.recheck true)])

/-- The law at that run, when the request goes on to disconnect. -/
theorem revocation_complete_dialing :
    ∃ s s', (revocationMachine ["a", "b"]).run revokedWhileDialing.1 = some s ∧
      (revocationMachine ["a", "b"]).runFrom s (revokedWhileDialing.2 ++
        [.task 0 .lookup, .task 0 .remove, .task 0 .closeChildren]) = some s' ∧
      s'.Ended s.api.generation ∧ s'.Within ["b"] := by
  refine ⟨_, _, rfl, rfl, by decide, ?_⟩
  have hok : (revocationMachine ["a", "b"]).Meets RevocationState.KeepsCleanup
      (revokedWhileDialing.1 ++ (revokedWhileDialing.2 ++
        [.task 0 .lookup, .task 0 .remove, .task 0 .closeChildren])) := by decide
  exact revocation_complete hok rfl rfl rfl rfl (by decide)

/-- **A request that is dropped at its disconnect leaves its connection behind.** -/
theorem dropped_recheck_leaks_connection :
    ∃ s s', (revocationMachine ["a", "b"]).run revokedWhileDialing.1 = some s ∧
      s.sweep = .idle ∧ s.settled = true ∧
      (revocationMachine ["a", "b"]).runFrom s
        (revokedWhileDialing.2 ++ [.task 0 .drop]) = some s' ∧
      s'.Ended s.api.generation ∧ s'.api.connections = [{ id := 0, session := "a" }] ∧
      ¬s'.Within ["b"] :=
  ⟨_, _, rfl, rfl, rfl, rfl, by decide, rfl, by decide⟩

end Api
end HelmSsh
