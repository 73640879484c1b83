/-
# Who cleans up after a revoked session

The cleanups that the server leaves to its tasks (`HelmSsh.Api.Server`), as an
invariant of its state.  A connection whose session is not authorized is seen to by
somebody: the task that is about to re-check or disconnect it, or an update of the
allowed sessions, which enters as a parameter `covers`.  A forward has its
connection, or somebody cancels it: the task that removed the connection's record,
or again the update (`closes`).  An active job has its task, or the request that is
about to spawn it.

* `CleanInv` — the invariant, with what keeps it going: one connection for each
  session, and one task at a time that dials for a session.
* `CleanInv.goTo`, `CleanInv.modifyJob`, `CleanInv.addConnection`,
  `CleanInv.removeConnection` and their companions — what the parts of a step do to
  it.
* `CleanInv.taskStep` — a step of a task keeps it, unless it ends the task while
  a cleanup depends on it (`EndSafe`).
-/

import HelmSsh.Api.Moves
import Mathlib.Data.List.Nodup

namespace HelmSsh
namespace Api

/-- The task is going to look at the connection `c` again, or to disconnect it. -/
def Task.revokes (t : Task) (c : Connection) : Bool :=
  match t.phase with
  | .registered | .disconnecting => t.session = c.session
  | .removing id => id = c.id
  | _ => false

/-- The connection whose forwards the task still has to cancel. -/
def TaskPhase.closes : TaskPhase → Option ℕ
  | .closing id _ => some id
  | _ => none

/-- What holds of the server while its cleanups are kept, for the sessions `A` that
are authorized and the tasks of the generations from `g` on.  `covers c` says that
somebody besides the tasks sees to the connection `c`, and `closes f` that somebody
besides the tasks cancels the forward `f`. -/
structure CleanInv (covers : Connection → Prop) (closes : Forward → Prop) (A : List String)
    (g : ℕ) (s : ApiState) : Prop where
  allowed_sub : ∀ session ∈ s.allowed, session ∈ A
  ids_nodup : (s.connections.map Connection.id).Nodup
  sessions_nodup : (s.connections.map Connection.session).Nodup
  id_lt : ∀ c ∈ s.connections, c.id < s.nextConnection
  /-- The owner of a connection lock dials a session without connection. -/
  lock_session : ∀ (i : ℕ) (t : Task), s.tasks[i]? = some t → t.phase.holdsLock = true →
    ∀ c ∈ s.connections, c.session ≠ t.session
  lock_unique : ∀ (i j : ℕ) (t u : Task), s.tasks[i]? = some t → s.tasks[j]? = some u →
    t.phase.holdsLock = true → u.phase.holdsLock = true → t.session = u.session → i = j
  /-- Somebody sees to each connection whose session is not authorized. -/
  covered : ∀ c ∈ s.connections, c.session ∈ A ∨ covers c ∨
    ∃ (i : ℕ) (t : Task), s.tasks[i]? = some t ∧ t.revokes c = true
  /-- A forward has its connection, or somebody is going to cancel it. -/
  forward_ok : ∀ f ∈ s.forwards,
    (∃ c ∈ s.connections, c.id = f.connection ∧ c.session = f.session) ∨ closes f ∨
      ∃ (i : ℕ) (t : Task), s.tasks[i]? = some t ∧ t.phase.closes = some f.connection ∧
        t.session = f.session
  /-- A task works on a connection of its own session. -/
  uses_ok : ∀ (i : ℕ) (t : Task) (id : ℕ), s.tasks[i]? = some t → t.phase.uses = some id →
    id < s.nextConnection ∧ ∀ c ∈ s.connections, c.id = id → c.session = t.session
  /-- An active job has its task, or the request that is going to spawn it. -/
  job_live : ∀ (j : ℕ) (r : JobRecord), s.jobs[j]? = some r → r.status.isActive = true →
    ∃ (i : ℕ) (t : Task), s.tasks[i]? = some t ∧ t.session = r.sessionId ∧
      ((t.job = some j ∧ t.phase ≠ .done) ∨ t.phase = .created j)
  /-- Only authorized sessions pass the access check. -/
  fresh : ∀ (i : ℕ) (t : Task), s.tasks[i]? = some t → g ≤ t.generation →
    t.session ∈ A ∨ t.phase = .done ∨ (t.phase = .accepted ∧ t.job = none)

/-- What a change of the task `t` at `i` to `phase` has to respect. -/
structure PhaseChange (covers : Connection → Prop) (A : List String) (s : ApiState) (i : ℕ)
    (t : Task) (phase : TaskPhase) : Prop where
  lock : phase.holdsLock = true → t.phase.holdsLock = true ∨
    (s.LockFree t.session ∧ ∀ c ∈ s.connections, c.session ≠ t.session)
  cover : ∀ c ∈ s.connections, t.revokes c = true →
    ({ t with phase := phase } : Task).revokes c = true ∨ c.session ∈ A ∨ covers c ∨
      ∃ (k : ℕ) (u : Task), k ≠ i ∧ s.tasks[k]? = some u ∧ u.revokes c = true
  close : ∀ f ∈ s.forwards, t.phase.closes = some f.connection →
    phase.closes = some f.connection
  uses : ∀ id, phase.uses = some id →
    id < s.nextConnection ∧ ∀ c ∈ s.connections, c.id = id → c.session = t.session
  job : ∀ j, (t.job = some j ∧ phase = .done) ∨ (t.phase = .created j ∧ phase ≠ .created j) →
    (∀ r : JobRecord, s.jobs[j]? = some r → r.status.isTerminal = true) ∨
      ∃ (k : ℕ) (u : Task), k ≠ i ∧ s.tasks[k]? = some u ∧ u.session = t.session ∧
        u.job = some j ∧ u.phase ≠ .done
  access : t.phase = .accepted → t.job = none → t.session ∈ s.allowed ∨ phase = .done
  begun : phase ≠ .accepted
  alive : t.phase ≠ .done

/-- No cleanup depends on the task `t` at `i`. -/
structure EndSafe (covers : Connection → Prop) (A : List String) (s : ApiState) (i : ℕ)
    (t : Task) : Prop where
  cover : ∀ c ∈ s.connections, t.revokes c = true → c.session ∈ A ∨ covers c ∨
    ∃ (k : ℕ) (u : Task), k ≠ i ∧ s.tasks[k]? = some u ∧ u.revokes c = true
  close : ∀ f ∈ s.forwards, t.phase.closes ≠ some f.connection
  create : ∀ j, t.phase = .created j → ∀ r : JobRecord, s.jobs[j]? = some r →
    r.status.isTerminal = true
  alive : t.phase ≠ .done

theorem EndSafe.of_free {covers : Connection → Prop} {A : List String} {s : ApiState}
    {i : ℕ} {t : Task}
    (h : t.phase.isFree = true) : EndSafe covers A s i t where
  cover c _ hrev := by
    rw [Task.revokes] at hrev
    cases hphase : t.phase <;> simp_all [TaskPhase.isFree]
  close f _ hclose := by
    cases hphase : t.phase <;> simp_all [TaskPhase.isFree, TaskPhase.closes]
  create j hphase := by
    simp [hphase, TaskPhase.isFree] at h
  alive hphase := by
    simp [hphase, TaskPhase.isFree] at h

/-- An operation of a job record makes no cleanup depend on the task. -/
theorem EndSafe.modifyJob {covers : Connection → Prop} {A : List String} {s : ApiState} {i : ℕ}
    {t : Task}
    (h : EndSafe covers A s i t) (j : ℕ) {f : JobRecord → JobRecord}
    (hf : ∀ r : JobRecord, r.Extends (f r)) : EndSafe covers A (s.modifyJob j f) i t :=
  { h with
    create := fun j' hphase r hr => by
      rw [ApiState.modifyJob, List.getElem?_modify] at hr
      obtain ⟨r₀, hr₀, rfl⟩ := Option.map_eq_some_iff.mp hr
      have hterm := h.create j' hphase r₀ hr₀
      split_ifs
      · rw [(hf r₀).terminal hterm]
        exact hterm
      · exact hterm }

/-- A task on which no cleanup depends may go on to any phase, if it has passed its
access check and gets what the phase needs. -/
theorem PhaseChange.of_endSafe {covers : Connection → Prop} {A : List String} {s : ApiState}
    {i : ℕ} {t : Task} {phase : TaskPhase} (h : EndSafe covers A s i t)
    (hlock : phase.holdsLock = true → t.phase.holdsLock = true ∨
      (s.LockFree t.session ∧ ∀ c ∈ s.connections, c.session ≠ t.session))
    (huses : ∀ id, phase.uses = some id →
      id < s.nextConnection ∧ ∀ c ∈ s.connections, c.id = id → c.session = t.session)
    (hjob : phase = .done → ∀ j ∈ t.job, ∀ r : JobRecord, s.jobs[j]? = some r →
      r.status.isTerminal = true)
    (haccess : t.phase = .accepted → t.job = none → t.session ∈ s.allowed ∨ phase = .done)
    (hbegun : phase ≠ .accepted) : PhaseChange covers A s i t phase where
  lock := hlock
  cover c hc hrev := .inr (h.cover c hc hrev)
  close f hf hclose := (h.close f hf hclose).elim
  uses := huses
  job j hj := by
    rcases hj with ⟨hjob', hdone⟩ | ⟨hcreated, -⟩
    · exact .inl (hjob hdone j hjob')
    · exact .inl (h.create j hcreated)
  access := haccess
  begun := hbegun
  alive := h.alive

namespace CleanInv

variable {covers covers' : Connection → Prop} {closes closes' : Forward → Prop}
  {A : List String} {g : ℕ}
  {s : ApiState} {i : ℕ} {t : Task}

/-! ### The parts of a step -/

theorem takeOver (h : CleanInv covers closes A g s)
    (hcovers : ∀ c ∈ s.connections, covers c → c.session ∈ A ∨ covers' c ∨
      ∃ (k : ℕ) (u : Task), s.tasks[k]? = some u ∧ u.revokes c = true)
    (hcloses : ∀ f ∈ s.forwards, closes f → closes' f ∨
      ∃ (k : ℕ) (u : Task), s.tasks[k]? = some u ∧ u.phase.closes = some f.connection ∧
        u.session = f.session) : CleanInv covers' closes' A g s :=
  { h with
    covered := fun c hc => by
      rcases h.covered c hc with hcov | hcov | hcov
      · exact .inl hcov
      · exact hcovers c hc hcov
      · exact .inr (.inr hcov)
    forward_ok := fun f hf => by
      rcases h.forward_ok f hf with hconn | hclose | hclose
      · exact .inl hconn
      · exact .inr (hcloses f hf hclose)
      · exact .inr (.inr hclose) }

theorem authorize (h : CleanInv covers closes A g s) {A' : List String}
    (hA : ∀ session ∈ A, session ∈ A') : CleanInv covers closes A' g s :=
  { h with
    allowed_sub := fun session hsession => hA session (h.allowed_sub session hsession)
    covered := fun c hc => (h.covered c hc).imp_left (hA _)
    fresh := fun k t ht hgen => (h.fresh k t ht hgen).imp_left (hA _) }

theorem setAllowed (h : CleanInv covers closes A g s) {allowed : List String}
    (hallowed : ∀ session ∈ allowed, session ∈ A) :
    CleanInv covers closes A g { s with allowed := allowed } :=
  { h with allowed_sub := hallowed }

/-- **A change of phase that respects the cleanups keeps the invariant.** -/
theorem goTo (h : CleanInv covers closes A g s) (ht : s.tasks[i]? = some t)
    (phase : TaskPhase) (hp : PhaseChange covers A s i t phase) :
    CleanInv covers closes A g (s.goTo i t phase) where
  allowed_sub := h.allowed_sub
  ids_nodup := h.ids_nodup
  sessions_nodup := h.sessions_nodup
  id_lt := h.id_lt
  lock_session := fun k u hu hlock => by
    rcases Pool.getElem?_set hu with ⟨-, rfl⟩ | ⟨-, hold⟩
    · rcases hp.lock hlock with hlock | ⟨-, hnone⟩
      · exact h.lock_session i t ht hlock
      · exact hnone
    · exact h.lock_session k u hold hlock
  lock_unique := fun k l u v hu hv hlu hlv hsession => by
    rcases Pool.getElem?_set hu with ⟨rfl, rfl⟩ | ⟨hk, holdu⟩ <;>
      rcases Pool.getElem?_set hv with ⟨rfl, rfl⟩ | ⟨hl, holdv⟩
    · rfl
    · rcases hp.lock hlu with hlock | ⟨hfree, -⟩
      · exact h.lock_unique k l t v ht holdv hlock hlv hsession
      · rw [hfree v (List.mem_of_getElem? holdv) hsession.symm] at hlv
        cases hlv
    · rcases hp.lock hlv with hlock | ⟨hfree, -⟩
      · exact h.lock_unique k l u t holdu ht hlu hlock hsession
      · rw [hfree u (List.mem_of_getElem? holdu) hsession] at hlu
        cases hlu
    · exact h.lock_unique k l u v holdu holdv hlu hlv hsession
  covered := fun c hc => by
    rcases h.covered c hc with hcov | hcov | ⟨k, u, hu, hrev⟩
    · exact .inl hcov
    · exact .inr (.inl hcov)
    · by_cases hk : k = i
      · subst hk
        rw [ht] at hu
        obtain rfl := Option.some.inj hu
        rcases hp.cover c hc hrev with hrev | hcov | hcov | ⟨l, v, hl, hv, hrev⟩
        · exact .inr (.inr ⟨k, _, Pool.getElem?_set_self ht, hrev⟩)
        · exact .inl hcov
        · exact .inr (.inl hcov)
        · refine .inr (.inr ⟨l, v, ?_, hrev⟩)
          exact (List.getElem?_set_ne (fun hkl => hl hkl.symm)).trans hv
      · refine .inr (.inr ⟨k, u, ?_, hrev⟩)
        exact (List.getElem?_set_ne (fun hik => hk hik.symm)).trans hu
  forward_ok := fun f hf => by
    rcases h.forward_ok f hf with hconn | hclose | hclose
    · exact .inl hconn
    · exact .inr (.inl hclose)
    · refine .inr (.inr (Pool.exists_set ht hclose ?_))
      rintro ⟨hclose, hsession⟩
      exact ⟨hp.close f hf hclose, hsession⟩
  uses_ok := fun k u id hu huses => by
    rcases Pool.getElem?_set hu with ⟨-, rfl⟩ | ⟨-, hold⟩
    · exact hp.uses id huses
    · exact h.uses_ok k u id hold huses
  job_live := fun j r hr hactive => by
    obtain ⟨k, u, hu, hsession, hlive⟩ := h.job_live j r hr hactive
    by_cases hk : k = i
    · subst hk
      rw [ht] at hu
      obtain rfl := Option.some.inj hu
      by_cases hends : (t.job = some j ∧ phase = .done) ∨
          (t.phase = .created j ∧ phase ≠ .created j)
      · rcases hp.job j hends with hterm | ⟨l, v, hl, hv, hsession', hjob, hdone⟩
        · rw [JobStatus.isActive, hterm r hr] at hactive
          cases hactive
        · refine ⟨l, v, ?_, hsession'.trans hsession, .inl ⟨hjob, hdone⟩⟩
          exact (List.getElem?_set_ne (fun hkl => hl hkl.symm)).trans hv
      · rw [not_or, not_and, not_and, not_not] at hends
        exact ⟨k, _, Pool.getElem?_set_self ht, hsession,
          hlive.imp (fun hjob => ⟨hjob.1, hends.1 hjob.1⟩) hends.2⟩
    · refine ⟨k, u, ?_, hsession, hlive⟩
      exact (List.getElem?_set_ne (fun hik => hk hik.symm)).trans hu
  fresh := fun k u hu hgen => by
    rcases Pool.getElem?_set hu with ⟨-, rfl⟩ | ⟨-, hold⟩
    · rcases h.fresh i t ht hgen with hallowed | hdone | ⟨hacc, hjob⟩
      · exact .inl hallowed
      · exact (hp.alive hdone).elim
      · rcases hp.access hacc hjob with hallowed | hdone
        · exact .inl (h.allowed_sub _ hallowed)
        · exact .inr (.inl hdone)
    · exact h.fresh k u hold hgen

/-- **An operation of a job record keeps the invariant.** -/
theorem modifyJob (h : CleanInv covers closes A g s) (j : ℕ) {f : JobRecord → JobRecord}
    (hsession : ∀ r, (f r).sessionId = r.sessionId)
    (hterminal : ∀ r, r.status.isTerminal = true → (f r).status = r.status) :
    CleanInv covers closes A g (s.modifyJob j f) :=
  { h with
    job_live := fun k r hr hactive => by
      rw [ApiState.modifyJob, List.getElem?_modify] at hr
      obtain ⟨r₀, hr₀, rfl⟩ := Option.map_eq_some_iff.mp hr
      by_cases hjk : j = k
      · simp only [if_pos hjk] at hactive ⊢
        rw [hsession]
        refine h.job_live k r₀ hr₀ ?_
        rw [JobStatus.isActive, Bool.not_eq_true'] at hactive ⊢
        by_contra hterm
        rw [Bool.not_eq_false] at hterm
        rw [hterminal r₀ hterm, hterm] at hactive
        cases hactive
      · simp only [if_neg hjk] at hactive ⊢
        exact h.job_live k r₀ hr₀ hactive }

theorem attachHandle (h : CleanInv covers closes A g s) (j k : ℕ) :
    CleanInv covers closes A g (s.modifyJob j fun r => { r with handle := some k }) :=
  h.modifyJob j (fun _ => rfl) (fun _ _ => rfl)

theorem extendJob (h : CleanInv covers closes A g s) (j : ℕ) {f : JobRecord → JobRecord}
    (hf : ∀ r : JobRecord, r.Extends (f r)) : CleanInv covers closes A g (s.modifyJob j f) :=
  h.modifyJob j (fun r => (hf r).sessionId_eq) (fun r => (hf r).terminal)

/-- **A new connection keeps the invariant**, when its session has none, nobody dials
for the session, and a task is about to re-check it. -/
theorem addConnection (h : CleanInv covers closes A g s) {session : String}
    (hfree : s.LockFree session) (hnone : ∀ c ∈ s.connections, c.session ≠ session)
    (hrecheck : ∃ (k : ℕ) (u : Task), s.tasks[k]? = some u ∧ u.phase = .registered ∧
      u.session = session) : CleanInv covers closes A g (s.addConnection session) :=
  { h with
    ids_nodup := by
      rw [ApiState.addConnection, List.map_append, List.nodup_append]
      refine ⟨h.ids_nodup, List.nodup_singleton _, ?_⟩
      rintro id hid id' hid' rfl
      obtain ⟨c, hc, rfl⟩ := List.mem_map.mp hid
      rw [List.map_singleton, List.mem_singleton] at hid'
      exact absurd (h.id_lt c hc) (by simp only [hid']; omega)
    sessions_nodup := by
      rw [ApiState.addConnection, List.map_append, List.nodup_append]
      refine ⟨h.sessions_nodup, List.nodup_singleton _, ?_⟩
      rintro session' hs session'' hs' rfl
      obtain ⟨c, hc, rfl⟩ := List.mem_map.mp hs
      rw [List.map_singleton, List.mem_singleton] at hs'
      exact hnone c hc hs'
    id_lt := fun c hc => by
      rcases List.mem_append.mp hc with hc | hc
      · exact Nat.lt_succ_of_lt (h.id_lt c hc)
      · rw [List.mem_singleton.mp hc]
        exact Nat.lt_succ_self _
    lock_session := fun k u hu hlock c hc => by
      rcases List.mem_append.mp hc with hc | hc
      · exact h.lock_session k u hu hlock c hc
      · rw [List.mem_singleton.mp hc]
        intro hsession
        rw [hfree u (List.mem_of_getElem? hu) hsession.symm] at hlock
        cases hlock
    covered := fun c hc => by
      rcases List.mem_append.mp hc with hc | hc
      · exact h.covered c hc
      · obtain ⟨k, u, hu, hphase, hsession⟩ := hrecheck
        rw [List.mem_singleton.mp hc]
        exact .inr (.inr ⟨k, u, hu, by simp [Task.revokes, hphase, hsession]⟩)
    forward_ok := fun f hf => by
      rcases h.forward_ok f hf with ⟨c, hc, hconn⟩ | hclose
      · exact .inl ⟨c, List.mem_append_left _ hc, hconn⟩
      · exact .inr hclose
    uses_ok := fun k u id hu huses => by
      obtain ⟨hlt, hsession⟩ := h.uses_ok k u id hu huses
      refine ⟨Nat.lt_succ_of_lt hlt, fun c hc hid => ?_⟩
      rcases List.mem_append.mp hc with hc | hc
      · exact hsession c hc hid
      · rw [List.mem_singleton.mp hc] at hid
        exact absurd hlt (by simp only [← hid]; omega) }

/-- **The removal of a connection keeps the invariant**, if somebody then cancels
its forwards. -/
theorem removeConnection (h : CleanInv covers closes A g s) (id : ℕ)
    (hcloses : ∀ f ∈ s.forwards, f.connection = id →
      (∃ c ∈ s.connections, c.id = id ∧ c.session = f.session) → closes f) :
    CleanInv covers closes A g (s.removeConnection id) :=
  { h with
    ids_nodup := h.ids_nodup.sublist (List.filter_sublist.map _)
    sessions_nodup := h.sessions_nodup.sublist (List.filter_sublist.map _)
    id_lt := fun c hc => h.id_lt c (List.mem_of_mem_filter hc)
    lock_session := fun k u hu hlock c hc =>
      h.lock_session k u hu hlock c (List.mem_of_mem_filter hc)
    covered := fun c hc => h.covered c (List.mem_of_mem_filter hc)
    forward_ok := fun f hf => by
      rcases h.forward_ok f hf with ⟨c, hc, hid, hsession⟩ | hclose
      · by_cases hf' : f.connection = id
        · exact .inr (.inl (hcloses f hf hf' ⟨c, hc, hid.trans hf', hsession⟩))
        · refine .inl ⟨c, List.mem_filter.mpr ⟨hc, ?_⟩, hid, hsession⟩
          simpa [hid] using hf'
      · exact .inr hclose
    uses_ok := fun k u id' hu huses => by
      obtain ⟨hlt, hsession⟩ := h.uses_ok k u id' hu huses
      exact ⟨hlt, fun c hc => hsession c (List.mem_of_mem_filter hc)⟩ }

theorem filterForwards (h : CleanInv covers closes A g s) (p : Forward → Bool) :
    CleanInv covers closes A g { s with forwards := s.forwards.filter p } :=
  { h with forward_ok := fun f hf => h.forward_ok f (List.mem_of_mem_filter hf) }

/-- A forward over a connection of its session keeps the invariant. -/
theorem addForward (h : CleanInv covers closes A g s) {f : Forward}
    (hconn : ∃ c ∈ s.connections, c.id = f.connection ∧ c.session = f.session) :
    CleanInv covers closes A g { s with forwards := s.forwards ++ [f] } :=
  { h with
    forward_ok := fun g hg => by
      rcases List.mem_append.mp hg with hg | hg
      · exact h.forward_ok g hg
      · rw [List.mem_singleton.mp hg]
        exact .inl hconn }

/-- A new job keeps the invariant when a request is about to spawn it. -/
theorem addJob (h : CleanInv covers closes A g s) {r : JobRecord}
    (hcreated : ∃ (k : ℕ) (u : Task), s.tasks[k]? = some u ∧ u.session = r.sessionId ∧
      u.phase = .created s.jobs.length) :
    CleanInv covers closes A g { s with jobs := s.jobs ++ [r] } :=
  { h with
    job_live := fun j r' hr hactive => by
      rcases Pool.getElem?_add hr with ⟨rfl, rfl⟩ | hold
      · obtain ⟨k, u, hu, hsession, hphase⟩ := hcreated
        exact ⟨k, u, hu, hsession, .inr hphase⟩
      · exact h.job_live j r' hold hactive }

/-- A new task keeps the invariant when it is at its start and needs no access
check that the task that spawns it has not passed. -/
theorem addTask (h : CleanInv covers closes A g s) {u : Task} (hphase : u.phase = .accepted)
    (hfresh : g ≤ u.generation → u.session ∈ A ∨ u.job = none) :
    CleanInv covers closes A g { s with tasks := s.tasks ++ [u] } :=
  { h with
    lock_session := fun k v hv hlock => by
      rcases Pool.getElem?_add hv with ⟨-, rfl⟩ | hold
      · simp [hphase, TaskPhase.holdsLock] at hlock
      · exact h.lock_session k v hold hlock
    lock_unique := fun k l v w hv hw hlv hlw hsession => by
      rcases Pool.getElem?_add hv with ⟨-, rfl⟩ | holdv
      · simp [hphase, TaskPhase.holdsLock] at hlv
      · rcases Pool.getElem?_add hw with ⟨-, rfl⟩ | holdw
        · simp [hphase, TaskPhase.holdsLock] at hlw
        · exact h.lock_unique k l v w holdv holdw hlv hlw hsession
    covered := fun c hc => (h.covered c hc).imp_right (Or.imp_right Pool.exists_add)
    forward_ok := fun f hf => (h.forward_ok f hf).imp_right (Or.imp_right Pool.exists_add)
    uses_ok := fun k v id hv huses => by
      rcases Pool.getElem?_add hv with ⟨-, rfl⟩ | hold
      · simp [hphase, TaskPhase.uses] at huses
      · exact h.uses_ok k v id hold huses
    job_live := fun j r hr hactive => Pool.exists_add (h.job_live j r hr hactive)
    fresh := fun k v hv hgen => by
      rcases Pool.getElem?_add hv with ⟨-, rfl⟩ | hold
      · rcases hfresh hgen with hallowed | hjob
        · exact .inl hallowed
        · exact .inr (.inr ⟨hphase, hjob⟩)
      · exact h.fresh k v hold hgen }

/-! ### Steps of a task -/

/-- A task on which no cleanup depends goes on to a plain phase. -/
theorem goTo_plain (h : CleanInv covers closes A g s) (ht : s.tasks[i]? = some t)
    (phase : TaskPhase) (hsafe : EndSafe covers A s i t) (hplain : phase.isPlain = true)
    (haccess : t.phase = .accepted → t.job = none → t.session ∈ s.allowed) :
    CleanInv covers closes A g (s.goTo i t phase) := by
  refine h.goTo ht _ (.of_endSafe hsafe ?_ ?_ ?_ (fun hacc hjob => .inl (haccess hacc hjob)) ?_)
  · intro hlock
    rw [TaskPhase.holdsLock_of_isPlain hplain] at hlock
    cases hlock
  · intro id huses
    rw [TaskPhase.uses_of_isPlain hplain] at huses
    cases huses
  · rintro rfl
    cases hplain
  · rintro rfl
    cases hplain

theorem goTo_done (h : CleanInv covers closes A g s) (ht : s.tasks[i]? = some t)
    (hsafe : EndSafe covers A s i t)
    (hjob : ∀ j ∈ t.job, ∀ r : JobRecord, s.jobs[j]? = some r → r.status.isTerminal = true) :
    CleanInv covers closes A g (s.goTo i t .done) :=
  h.goTo ht _ (.of_endSafe hsafe (fun hlock => by cases hlock) (fun id huses => by cases huses)
    (fun _ => hjob) (fun _ _ => .inr rfl) (fun hphase => by cases hphase))

/-- A task on which no cleanup depends ends with its job. -/
theorem endTask (h : CleanInv covers closes A g s) (ht : s.tasks[i]? = some t)
    (hsafe : EndSafe covers A s i t) {f : JobRecord → JobRecord}
    (hf : ∀ r : JobRecord, r.Extends (f r)) (hterm : ∀ r, (f r).status.isTerminal = true) :
    CleanInv covers closes A g (s.endTask i t f) := by
  cases hjob : t.job with
  | none =>
    rw [ApiState.endTask, hjob]
    exact h.goTo_done ht hsafe (by simp [hjob])
  | some j =>
    have heq : s.endTask i t f = (s.modifyJob j f).goTo i t .done := by
      rw [ApiState.endTask, hjob]
      rfl
    rw [heq]
    refine (h.extendJob j hf).goTo_done ht (hsafe.modifyJob j hf) ?_
    intro j' hj' r hr
    rw [hjob, Option.mem_some_iff] at hj'
    subst hj'
    rw [ApiState.modifyJob, List.getElem?_modify] at hr
    obtain ⟨r₀, -, rfl⟩ := Option.map_eq_some_iff.mp hr
    rw [if_pos rfl]
    exact hterm r₀

/-- `mark_connecting` and `mark_running` keep the invariant. -/
theorem markJob (h : CleanInv covers closes A g s) (ht : s.tasks[i]? = some t)
    (hsafe : EndSafe covers A s i t) {j : ℕ} (hjob : t.job = some j) (status : JobStatus)
    {phase : TaskPhase} (hplain : phase.isPlain = true) :
    CleanInv covers closes A g (s.markJob i t j (JobRecord.mark status) phase) := by
  cases hr : s.jobs[j]? with
  | none =>
    rw [ApiState.markJob, hr]
    refine h.goTo_done ht hsafe ?_
    intro j' hj' r hr'
    rw [hjob, Option.mem_some_iff] at hj'
    subst hj'
    rw [hr] at hr'
    cases hr'
  | some r =>
    have hext := JobRecord.extends_mark status
    have heq : s.markJob i t j (JobRecord.mark status) phase =
        (s.modifyJob j fun r => (r.mark status).1).goTo i t
          (if (r.mark status).2 then phase else .done) := by
      rw [ApiState.markJob, hr]
      rfl
    rw [heq]
    by_cases hmark : (r.mark status).2 = true
    · rw [if_pos hmark]
      exact (h.extendJob j hext).goTo_plain ht _ (hsafe.modifyJob j hext) hplain
        (fun _ hnone => by simp [hjob] at hnone)
    · rw [if_neg hmark]
      refine (h.extendJob j hext).goTo_done ht (hsafe.modifyJob j hext) ?_
      intro j' hj' r' hr'
      rw [hjob, Option.mem_some_iff] at hj'
      subst hj'
      rw [ApiState.modifyJob, List.getElem?_modify, hr] at hr'
      obtain rfl := Option.some.inj hr'
      simpa using JobRecord.mark_false_terminal (by simpa using hmark)

theorem eq_of_session (h : CleanInv covers closes A g s) {c d : Connection}
    (hc : c ∈ s.connections) (hd : d ∈ s.connections) (hcd : c.session = d.session) : c = d :=
  List.inj_on_of_nodup_map h.sessions_nodup hc hd hcd

theorem eq_of_id (h : CleanInv covers closes A g s) {c d : Connection}
    (hc : c ∈ s.connections) (hd : d ∈ s.connections) (hcd : c.id = d.id) : c = d :=
  List.inj_on_of_nodup_map h.ids_nodup hc hd hcd

/-- `connect_inner` removes a dead connection and goes on with the lock. -/
theorem replaceDead (h : CleanInv covers closes A g s) (ht : s.tasks[i]? = some t)
    (hphase : t.phase = .verified) (hfree : s.LockFree t.session) {c : Connection}
    (hc : s.connectionOf t.session = some c) :
    CleanInv covers closes A g ((s.removeConnection c.id).goTo i t (.closing c.id true)) := by
  obtain ⟨hmem, hsession⟩ := ApiState.connectionOf_eq_some hc
  let closes' : Forward → Prop := fun f => closes f ∨ f.connection = c.id ∧ f.session = t.session
  have hremoved : CleanInv covers closes' A g (s.removeConnection c.id) := by
    refine (h.takeOver (fun d _ hd => .inr (.inl hd))
      (fun f _ hf => .inl (.inl hf))).removeConnection
      c.id ?_
    rintro f hf hfc ⟨d, hd, hid, hds⟩
    rw [h.eq_of_id hd hmem hid, hsession] at hds
    exact .inr ⟨hfc, hds.symm⟩
  have hnone : ∀ d ∈ (s.removeConnection c.id).connections, d.session ≠ t.session := by
    intro d hd hds
    rw [ApiState.removeConnection, List.mem_filter] at hd
    rw [h.eq_of_session hd.1 hmem (hds.trans hsession.symm)] at hd
    simp at hd
  have hsafe : EndSafe covers A (s.removeConnection c.id) i t := .of_free (by rw [hphase]; rfl)
  have hclosing : CleanInv covers closes' A g
      ((s.removeConnection c.id).goTo i t (.closing c.id true)) :=
    hremoved.goTo ht _
      (.of_endSafe hsafe (fun _ => .inr ⟨hfree, hnone⟩) (fun id huses => by cases huses)
      (fun hdone => by cases hdone) (fun hacc => by rw [hphase] at hacc; cases hacc)
      (fun hacc => by cases hacc))
  refine hclosing.takeOver (fun d _ hd => .inr (.inl hd)) ?_
  rintro f - (hf | ⟨hfc, hfs⟩)
  · exact .inl hf
  · exact .inr ⟨i, _, Pool.getElem?_set_self ht, by simp [TaskPhase.closes, hfc], hfs.symm⟩

/-- `connect_inner` registers the connection and leaves the lock. -/
theorem register (h : CleanInv covers closes A g s) (ht : s.tasks[i]? = some t)
    (hphase : t.phase = .dialing) :
    CleanInv covers closes A g ((s.goTo i t .registered).addConnection t.session) := by
  have hlock : t.phase.holdsLock = true := by rw [hphase]; rfl
  have hreg := h.goTo_plain ht .registered (.of_free (by rw [hphase]; rfl)) rfl
    (fun hacc => by rw [hphase] at hacc; cases hacc)
  refine hreg.addConnection ?_ (h.lock_session i t ht hlock)
    ⟨i, _, Pool.getElem?_set_self ht, rfl, rfl⟩
  intro u hu hsession
  obtain ⟨k, hk⟩ := List.mem_iff_getElem?.mp hu
  rcases Pool.getElem?_set hk with ⟨-, rfl⟩ | ⟨hki, hold⟩
  · rfl
  · by_contra hlocku
    rw [Bool.not_eq_false] at hlocku
    exact hki (h.lock_unique k i u t hold ht hlocku hlock hsession)

/-- The access check behind the registration keeps the invariant. -/
theorem recheck (h : CleanInv covers closes A g s) (ht : s.tasks[i]? = some t)
    (hphase : t.phase = .registered) (stillValid : Bool) :
    CleanInv covers closes A g
      (s.goTo i t (if t.session ∈ s.allowed ∧ stillValid then .ready else .disconnecting)) := by
  refine h.goTo ht _ ?_
  constructor
  case cover =>
    intro c _ hrev
    split_ifs with hvalid
    · simp only [Task.revokes, hphase, decide_eq_true_eq] at hrev
      exact .inr (.inl (h.allowed_sub _ (hrev ▸ hvalid.1)))
    · exact .inl (by simpa [Task.revokes, hphase] using hrev)
  case alive => simp [hphase]
  all_goals split_ifs <;> simp [hphase, TaskPhase.holdsLock, TaskPhase.closes, TaskPhase.uses]

/-- The lookup of a session's connection keeps the invariant. -/
theorem lookup (h : CleanInv covers closes A g s) (ht : s.tasks[i]? = some t)
    (hphase : t.phase = .disconnecting) {c : Connection} (hc : s.connectionOf t.session = some c) :
    CleanInv covers closes A g (s.goTo i t (.removing c.id)) := by
  obtain ⟨hmem, hsession⟩ := ApiState.connectionOf_eq_some hc
  refine h.goTo ht _ ?_
  constructor
  case cover =>
    intro d hd hrev
    simp only [Task.revokes, hphase, decide_eq_true_eq] at hrev
    rw [h.eq_of_session hd hmem (hrev.symm.trans hsession.symm)]
    exact .inl (by simp [Task.revokes])
  case uses =>
    intro id huses
    obtain rfl := Option.some.inj huses
    refine ⟨h.id_lt c hmem, fun d hd hid => ?_⟩
    rw [h.eq_of_id hd hmem hid, hsession]
  all_goals simp [hphase, TaskPhase.holdsLock, TaskPhase.closes]

/-- The removal of a connection by the task that looked it up keeps the invariant. -/
theorem remove (h : CleanInv covers closes A g s) (ht : s.tasks[i]? = some t) {id : ℕ}
    (hphase : t.phase = .removing id) :
    CleanInv covers closes A g ((s.removeConnection id).goTo i t (.closing id false)) := by
  let closes' : Forward → Prop := fun f => closes f ∨ f.connection = id ∧ f.session = t.session
  have hremoved : CleanInv covers closes' A g (s.removeConnection id) := by
    refine (h.takeOver (fun d _ hd => .inr (.inl hd))
      (fun f _ hf => .inl (.inl hf))).removeConnection
      id ?_
    rintro f hf hfc ⟨d, hd, hid, hds⟩
    rw [(h.uses_ok i t id ht (by rw [hphase]; rfl)).2 d hd hid] at hds
    exact .inr ⟨hfc, hds.symm⟩
  have hsafe : EndSafe covers A (s.removeConnection id) i t := by
    constructor
    case cover =>
      intro d hd hrev
      simp only [Task.revokes, hphase, decide_eq_true_eq] at hrev
      simp [ApiState.removeConnection, hrev] at hd
    all_goals simp [hphase, TaskPhase.closes]
  have hclosing : CleanInv covers closes' A g
      ((s.removeConnection id).goTo i t (.closing id false)) :=
    hremoved.goTo_plain ht _ hsafe rfl (fun hacc => by rw [hphase] at hacc; cases hacc)
  refine hclosing.takeOver (fun d _ hd => .inr (.inl hd)) ?_
  rintro f - (hf | ⟨hfc, hfs⟩)
  · exact .inl hf
  · exact .inr ⟨i, _, Pool.getElem?_set_self ht, by simp [TaskPhase.closes, hfc], hfs.symm⟩

/-- `close_children_for_connection` leaves no forward to cancel. -/
theorem closeChildren (h : CleanInv covers closes A g s) {id : ℕ} {redial : Bool}
    (hphase : t.phase = .closing id redial) :
    CleanInv covers closes A g (s.cancelForwards id) ∧
      EndSafe covers A (s.cancelForwards id) i t := by
  refine ⟨h.filterForwards _, ?_⟩
  constructor
  case close =>
    intro f hf hclose
    simp only [hphase, TaskPhase.closes, Option.some.injEq] at hclose
    simp [ApiState.cancelForwards, hclose] at hf
  all_goals simp [hphase, Task.revokes]

/-- A started forward is registered only over a connection that is still there. -/
theorem registerForward (h : CleanInv covers closes A g s) (ht : s.tasks[i]? = some t) {id : ℕ}
    {tunnel : String} (hphase : t.phase = .forwarding id tunnel)
    (hid : id ∈ s.connections.map Connection.id) :
    CleanInv covers closes A g
      { s.goTo i t (.forwarded tunnel) with
        forwards :=
          s.forwards ++ [{ connection := id, session := t.session, tunnel := tunnel }] } := by
  have hgone := h.goTo_plain ht (.forwarded tunnel) (.of_free (by rw [hphase]; rfl)) rfl
    (fun hacc => by rw [hphase] at hacc; cases hacc)
  obtain ⟨c, hc, rfl⟩ := List.mem_map.mp hid
  exact hgone.addForward ⟨c, hc, rfl, (h.uses_ok i t c.id ht (by rw [hphase]; rfl)).2 c hc rfl⟩

/-- `tokio::spawn` of a job's task keeps the invariant. -/
theorem spawnJob (h : CleanInv covers closes A g s) (ht : s.tasks[i]? = some t) {j k : ℕ}
    (hphase : t.phase = .created j) {task : Task} (hjob : task.job = some j)
    (hsession : task.session = t.session) (hgeneration : task.generation = t.generation)
    (haccepted : task.phase = .accepted) :
    CleanInv covers closes A g
      { s with tasks := s.tasks.set i { t with phase := .spawned j k } ++ [task] } := by
  have hadded : CleanInv covers closes A g { s with tasks := s.tasks ++ [task] } := by
    refine h.addTask haccepted (fun hgen => ?_)
    rcases h.fresh i t ht (hgeneration ▸ hgen) with hallowed | hdone | ⟨hacc, -⟩
    · exact .inl (hsession ▸ hallowed)
    · rw [hphase] at hdone
      cases hdone
    · rw [hphase] at hacc
      cases hacc
  have hlt := (List.getElem?_eq_some_iff.mp ht).1
  have hgone := hadded.goTo (Pool.getElem?_add_left ht) (.spawned j k) (by
    constructor
    case job =>
      rintro j' (⟨-, hdone⟩ | ⟨hcreated, -⟩)
      · cases hdone
      · rw [hphase] at hcreated
        obtain rfl := TaskPhase.created.inj hcreated
        exact .inr ⟨s.tasks.length, task, by omega, by simp, hsession, hjob, by simp [haccepted]⟩
    all_goals simp [hphase, Task.revokes, TaskPhase.holdsLock, TaskPhase.closes, TaskPhase.uses])
  rwa [ApiState.goTo, List.set_append_left _ _ hlt] at hgone

/-- **A step of a task keeps the invariant**, unless it ends the task while a cleanup
depends on it. -/
theorem taskStep (h : CleanInv covers closes A g s) (ht : s.tasks[i]? = some t)
    {e : TaskEvent} {s' : ApiState} (hstep : s.taskStep i t e = some s') (habort : e ≠ .abort)
    (hkeep : e = .drop ∨ e = .cancelSeen → EndSafe covers A s i t) :
    CleanInv covers closes A g s' := by
  cases ApiState.taskMove_of_step hstep with
  | go hfree hplain _ haccess =>
    exact h.goTo_plain ht _ (.of_free hfree) hplain (fun hacc _ => (haccess hacc).1)
  | fail hfree hext hterm => exact h.endTask ht (.of_free hfree) hext hterm
  | mark hfree hjob hplain => exact h.markJob ht (.of_free hfree) hjob _ hplain
  | dial hphase hlock hnone =>
    exact h.goTo ht _ (.of_endSafe (.of_free (by rw [hphase]; rfl))
      (fun _ => .inr ⟨hlock, ApiState.connectionOf_eq_none hnone⟩) (fun id huses => by cases huses)
      (fun hdone => by cases hdone) (fun hacc => by rw [hphase] at hacc; cases hacc)
      (fun hacc => by cases hacc))
  | replaceDead hphase hlock hc => exact h.replaceDead ht hphase hlock hc
  | register hphase => exact h.register ht hphase
  | recheck hphase => exact h.recheck ht hphase _
  | lookup hphase hc => exact h.lookup ht hphase hc
  | lookupNone hphase hnone =>
    refine h.endTask ht ?_ JobRecord.extends_finishError JobRecord.finishError_terminal
    constructor
    case cover =>
      intro c hmem hrev
      simp only [Task.revokes, hphase, decide_eq_true_eq] at hrev
      exact (ApiState.connectionOf_eq_none hnone c hmem hrev.symm).elim
    all_goals simp [hphase, TaskPhase.closes]
  | remove hphase => exact h.remove ht hphase
  | removeNone hphase hnone =>
    refine h.endTask ht ?_ JobRecord.extends_finishError JobRecord.finishError_terminal
    constructor
    case cover =>
      intro c hc hrev
      simp only [Task.revokes, hphase, decide_eq_true_eq] at hrev
      exact (hnone (List.mem_map.mpr ⟨c, hc, hrev.symm⟩)).elim
    all_goals simp [hphase, TaskPhase.closes]
  | closeAndRedial hphase =>
    obtain ⟨hcanceled, hsafe⟩ := h.closeChildren (i := i) hphase
    exact hcanceled.goTo ht _ (.of_endSafe hsafe (fun _ => .inl (by rw [hphase]; rfl))
      (fun id huses => by cases huses) (fun hdone => by cases hdone)
      (fun hacc => by rw [hphase] at hacc; cases hacc) (fun hacc => by cases hacc))
  | closeAndEnd hphase =>
    obtain ⟨hcanceled, hsafe⟩ := h.closeChildren (i := i) hphase
    exact hcanceled.endTask ht hsafe JobRecord.extends_finishError JobRecord.finishError_terminal
  | startForward hphase hc =>
    obtain ⟨hmem, hsession⟩ := ApiState.connectionOf_eq_some hc
    refine h.goTo ht _
      (.of_endSafe (.of_free (by rw [hphase]; rfl)) (fun hlock => by cases hlock) ?_
      (fun hdone => by cases hdone) (fun hacc => by rw [hphase] at hacc; cases hacc)
      (fun hacc => by cases hacc))
    intro id huses
    obtain rfl := Option.some.inj huses
    refine ⟨h.id_lt _ hmem, fun d hd hid => ?_⟩
    rw [h.eq_of_id hd hmem hid, hsession]
  | registerForward hphase hid => exact h.registerForward ht hphase hid
  | stopForwards hphase =>
    exact (h.goTo_plain ht .disconnecting (.of_free (by rw [hphase]; rfl)) rfl
      (fun hacc => by rw [hphase] at hacc; cases hacc)).filterForwards _
  | createJob hphase =>
    have hcreated :=
      h.goTo ht (.created s.jobs.length) (.of_endSafe (.of_free (by rw [hphase]; rfl))
      (fun hlock => by cases hlock) (fun id huses => by cases huses) (fun hdone => by cases hdone)
      (fun hacc => by rw [hphase] at hacc; cases hacc) (fun hacc => by cases hacc))
    exact hcreated.addJob ⟨i, _, Pool.getElem?_set_self ht, rfl, rfl⟩
  | cancelJob hphase hjob =>
    exact (h.extendJob _ JobRecord.extends_requestCancel).goTo_done ht
      (.of_free (by rw [hphase]; rfl))
      (by simp [hjob])
  | spawnJob hphase => exact h.spawnJob ht hphase rfl rfl rfl rfl
  | attachHandle hphase =>
    exact (h.goTo_plain ht .ready (.of_free (by rw [hphase]; rfl)) rfl
      (fun hacc => by rw [hphase] at hacc; cases hacc)).attachHandle _ _
  | drop =>
    exact h.endTask ht (hkeep (.inl rfl)) JobRecord.extends_finishCanceled
      JobRecord.finishCanceled_terminal
  | cancelSeen =>
    exact h.endTask ht (hkeep (.inr rfl)) JobRecord.extends_finishCanceled
      JobRecord.finishCanceled_terminal
  | abort => exact (habort rfl).elim

end CleanInv

end Api
end HelmSsh
