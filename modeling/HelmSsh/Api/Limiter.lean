/-
# The limits on running commands

`ApiExecutionLimiter` of `src-tauri/src/api_server/mod.rs`: a semaphore for all sessions and one
for each, which `acquire` creates on demand and `update_sessions` removes when the session is
revoked and nobody else points to it.  A command holds a permit of both, the one of its session
first.

A semaphore lives as long as an `Arc` points to it: that of the map, and those of the calls,
which a call gets under the lock of the map and gives up with its permit.  `Arc::strong_count`
counts them (`State.strongCount`).  `update_sessions` looks at one entry of the map after the
other while calls give up theirs, so each entry is an event.

* `permits_of_run` — at every moment at most 4 permits of a session are held, and at most 16 in
  all: a call's semaphore is the one in the map, so a session never has two that are in use.
-/

import HelmSsh.Machine
import HelmSsh.Pool
import Mathlib.Data.List.Nodup

namespace HelmSsh
namespace Api
namespace Limiter

/-- `MAX_API_EXEC_CONCURRENCY`. -/
def maxApiExecConcurrency : ℕ := 16

/-- `MAX_API_EXEC_CONCURRENCY_PER_SESSION`. -/
def maxApiExecConcurrencyPerSession : ℕ := 4

/-- How far a call of `acquire` and its permit are. -/
inductive Phase
  | begun
  /-- With an `Arc` of the session's semaphore, for a permit of it. -/
  | queued (semaphore : ℕ)
  /-- With a permit of the session, for a global one. -/
  | halfway (semaphore : ℕ)
  /-- `ApiExecutionPermit`. -/
  | holding (semaphore : ℕ)
  /-- The permit of the session is given back, the `Arc` is not; whether there is a global
  permit. -/
  | returning (semaphore : ℕ) (withGlobal : Bool)
  /-- The global permit is still there. -/
  | releasing
  | ended
  deriving DecidableEq

/-- The semaphore that the call has an `Arc` of. -/
def Phase.semaphore : Phase → Option ℕ
  | .queued semaphore => some semaphore
  | .halfway semaphore => some semaphore
  | .holding semaphore => some semaphore
  | .returning semaphore _ => some semaphore
  | _ => none

/-- The call has a permit of the semaphore. -/
def Phase.takes (semaphore : ℕ) : Phase → Bool
  | .halfway other => other = semaphore
  | .holding other => other = semaphore
  | _ => false

/-- The call has a permit of its session. -/
def Phase.takesSession : Phase → Bool
  | .halfway _ => true
  | .holding _ => true
  | _ => false

/-- The call has a global permit. -/
def Phase.takesGlobal : Phase → Bool
  | .holding _ => true
  | .returning _ withGlobal => withGlobal
  | .releasing => true
  | _ => false

/-- A call of `acquire`, with its permit. -/
structure Call where
  session : String
  phase : Phase
  deriving DecidableEq

/-- `update_sessions`, with the entries that `retain` has not looked at. -/
structure Update where
  allowed : List String
  todo : List String
  deriving DecidableEq

/-- The limiter with the calls. -/
structure State where
  /-- The free permits of `global`. -/
  global : ℕ
  /-- The free permits of each semaphore of a session so far. -/
  semaphores : List ℕ
  /-- The map `sessions`. -/
  sessions : List (String × ℕ)
  /-- The `update_sessions` that holds the lock of the map. -/
  update : Option Update
  calls : List Call
  deriving DecidableEq

/-- A step of a call. -/
inductive Action
  /-- The section under the lock of the map. -/
  | enter
  | takeSession
  | takeGlobal
  /-- The timeout of the queue, or the caller goes away. -/
  | abandon
  /-- The permit is dropped: the field `_session` gives back its permit, -/
  | giveBack
  /-- and its `Arc`, -/
  | forget
  /-- and `_global` its permit. -/
  | release
  deriving DecidableEq

/-- A new call, a step of a call, or a step of `update_sessions`. -/
inductive Event
  | acquire (session : String)
  | call (i : ℕ) (action : Action)
  | update (allowed : List String)
  /-- `retain` looks at an entry. -/
  | visit
  | finish
  deriving DecidableEq

namespace State

/-- The `i`-th call goes on. -/
def goTo (s : State) (i : ℕ) (c : Call) (phase : Phase) : State :=
  { s with calls := s.calls.set i { c with phase } }

/-- `sessions.entry(session).or_insert_with(..)`. -/
def register (s : State) (session : String) : State :=
  if s.sessions.any fun entry => entry.1 = session then s
  else
    { s with
      semaphores := s.semaphores ++ [maxApiExecConcurrencyPerSession]
      sessions := s.sessions ++ [(session, s.semaphores.length)] }

/-- `Arc::strong_count` of a semaphore. -/
def strongCount (s : State) (semaphore : ℕ) : ℕ :=
  s.sessions.countP (fun entry => entry.2 = semaphore) +
    s.calls.countP fun c => c.phase.semaphore = some semaphore

/-- A step of a call. -/
def callStep (s : State) (i : ℕ) (c : Call) : Phase → Action → Option State
  | .begun, .enter =>
    if s.update = none then
      let s := s.register c.session
      (s.sessions.find? fun entry => entry.1 = c.session).map fun entry =>
        s.goTo i c (.queued entry.2)
    else none
  | .queued semaphore, .takeSession => s.semaphores[semaphore]?.bind fun free =>
    if 0 < free then
      some { s.goTo i c (.halfway semaphore) with
        semaphores := s.semaphores.set semaphore (free - 1) }
    else none
  | .halfway semaphore, .takeGlobal =>
    if 0 < s.global then some { s.goTo i c (.holding semaphore) with global := s.global - 1 }
    else none
  | .begun, .abandon => some (s.goTo i c .ended)
  | .queued _, .abandon => some (s.goTo i c .ended)
  | .halfway semaphore, .abandon => s.semaphores[semaphore]?.map fun free =>
    { s.goTo i c (.returning semaphore false) with
      semaphores := s.semaphores.set semaphore (free + 1) }
  | .holding semaphore, .giveBack => s.semaphores[semaphore]?.map fun free =>
    { s.goTo i c (.returning semaphore true) with
      semaphores := s.semaphores.set semaphore (free + 1) }
  | .returning _ withGlobal, .forget =>
    some (s.goTo i c (if withGlobal then .releasing else .ended))
  | .releasing, .release => some { s.goTo i c .ended with global := s.global + 1 }
  | _, _ => none

/-- `retain` looks at the next entry. -/
def visit (s : State) (u : Update) : Option State :=
  match u.todo with
  | [] => none
  | session :: todo =>
    (s.sessions.find? fun entry => entry.1 = session).map fun entry =>
      { s with
        update := some { u with todo }
        sessions := if session ∈ u.allowed ∨ 1 < s.strongCount entry.2 then s.sessions
          else s.sessions.filter fun entry => entry.1 ≠ session }

/-- One event. -/
def step (s : State) : Event → Option State
  | .acquire session => some { s with calls := s.calls ++ [⟨session, .begun⟩] }
  | .call i action => s.calls[i]?.bind fun c => s.callStep i c c.phase action
  | .update allowed =>
    if s.update = none then
      some { s with update := some ⟨allowed, s.sessions.map Prod.fst⟩ }
    else none
  | .visit => s.update.bind s.visit
  | .finish => s.update.bind fun u =>
    if u.todo = [] then some { u.allowed.foldl register s with update := none } else none

/-- The permits of the session that are held. -/
def held (s : State) (session : String) : ℕ :=
  s.calls.countP fun c => c.session = session && c.phase.takesSession

/-- All permits that are held. -/
def heldGlobal (s : State) : ℕ :=
  s.calls.countP fun c => c.phase.takesGlobal

end State

/-- `ApiExecutionLimiter::new`. -/
def new (allowed : List String) : State :=
  allowed.foldl State.register
    { global := maxApiExecConcurrency, semaphores := [], sessions := [], update := none,
      calls := [] }

/-- The machine of the limiter. -/
def limiter (allowed : List String) : Machine State Event where
  init := new allowed
  step := State.step

/-! ### The invariant -/

/-- **The invariant of the limiter**: the free permits and those of the calls add up, and the
semaphore that a call points to is the one in the map. -/
structure Inv (s : State) : Prop where
  keys : (s.sessions.map Prod.fst).Nodup
  valid : ∀ entry ∈ s.sessions, entry.2 < s.semaphores.length
  registered : ∀ (i : ℕ) (c : Call) (semaphore : ℕ), s.calls[i]? = some c →
    c.phase.semaphore = some semaphore → (c.session, semaphore) ∈ s.sessions
  permits : ∀ (semaphore free : ℕ), s.semaphores[semaphore]? = some free →
    free + s.calls.countP (fun c => c.phase.takes semaphore) = maxApiExecConcurrencyPerSession
  global : s.global + s.heldGlobal = maxApiExecConcurrency

/-- A permit is of the semaphore that the call points to. -/
theorem Phase.semaphore_of_takes {semaphore : ℕ} {phase : Phase}
    (h : phase.takes semaphore = true) : phase.semaphore = some semaphore := by
  cases phase with
  | halfway other => exact congrArg some (of_decide_eq_true h)
  | holding other => exact congrArg some (of_decide_eq_true h)
  | begun => cases h
  | queued _ => cases h
  | returning _ _ => cases h
  | releasing => cases h
  | ended => cases h

namespace Inv

variable {s : State} {i : ℕ} {c : Call}

theorem unique (h : Inv s) {session : String} {semaphore semaphore' : ℕ}
    (hin : (session, semaphore) ∈ s.sessions) (hin' : (session, semaphore') ∈ s.sessions) :
    semaphore = semaphore' :=
  congrArg Prod.snd (List.inj_on_of_nodup_map h.keys hin hin' rfl)

theorem register (h : Inv s) (session : String) : Inv (s.register session) := by
  unfold State.register
  split_ifs with hany
  · exact h
  have hnew : session ∉ s.sessions.map Prod.fst := by
    rintro hmem
    obtain ⟨entry, hentry, hkey⟩ := List.mem_map.mp hmem
    exact hany (List.any_eq_true.mpr ⟨entry, hentry, decide_eq_true hkey⟩)
  refine ⟨?_, ?_, fun i c semaphore hc hphase => ?_, fun semaphore free hfree => ?_, h.global⟩
  · rw [List.map_append, List.nodup_append]
    refine ⟨h.keys, by simp, ?_⟩
    rintro key hkey key' hkey' rfl
    rw [List.map_singleton, List.mem_singleton] at hkey'
    have hsame : key = session := hkey'
    exact hnew (hsame ▸ hkey)
  · intro entry hentry
    rw [List.length_append, List.length_singleton]
    rcases List.mem_append.mp hentry with hentry | hentry
    · have hlt := h.valid entry hentry
      omega
    · rw [List.mem_singleton.mp hentry]
      exact Nat.lt_succ_self _
  · exact List.mem_append_left _ (h.registered i c semaphore hc hphase)
  · rcases Pool.getElem?_add hfree with ⟨rfl, rfl⟩ | hfree
    · have hnone : s.calls.countP (fun c => c.phase.takes s.semaphores.length) = 0 := by
        refine List.countP_eq_zero.mpr fun c hc htakes => ?_
        obtain ⟨i, hi⟩ := List.mem_iff_getElem?.mp hc
        have hlt := h.valid _ (h.registered i c _ hi (Phase.semaphore_of_takes htakes))
        exact Nat.lt_irrefl _ hlt
      show _ + s.calls.countP _ = _
      rw [hnone, Nat.add_zero]
    · exact h.permits semaphore free hfree

theorem registerAll (h : Inv s) (allowed : List String) :
    Inv (allowed.foldl State.register s) := by
  induction allowed generalizing s with
  | nil => exact h
  | cons session allowed ih => exact ih (h.register session)

theorem init (allowed : List String) : Inv (limiter allowed).init := by
  have hempty : Inv { global := maxApiExecConcurrency, semaphores := [], sessions := [],
                      update := none, calls := [] } :=
    ⟨List.nodup_nil, fun _ hentry => absurd hentry List.not_mem_nil,
      (fun _ _ _ hc => by cases hc), (fun _ _ hfree => by cases hfree), rfl⟩
  exact hempty.registerAll allowed

/-- **A step of a call**: the permits that it takes are no longer free, and it points to a
semaphore in the map. -/
theorem move (h : Inv s) (hc : s.calls[i]? = some c) {phase : Phase} {semaphores : List ℕ}
    {global : ℕ}
    (hregistered : ∀ semaphore, phase.semaphore = some semaphore →
      (c.session, semaphore) ∈ s.sessions)
    (hlength : semaphores.length = s.semaphores.length)
    (hpermits : ∀ (semaphore free : ℕ), semaphores[semaphore]? = some free →
      ∃ old, s.semaphores[semaphore]? = some old ∧
        free + (if phase.takes semaphore then 1 else 0) =
          old + (if c.phase.takes semaphore then 1 else 0))
    (hglobal : global + (if phase.takesGlobal then 1 else 0) =
      s.global + (if c.phase.takesGlobal then 1 else 0)) :
    Inv { s.goTo i c phase with semaphores := semaphores, global := global } := by
  refine ⟨h.keys, ?_, fun j d semaphore hd hphase => ?_, fun semaphore free hfree => ?_, ?_⟩
  · intro entry hentry
    show entry.2 < semaphores.length
    rw [hlength]
    exact h.valid entry hentry
  · rcases Pool.getElem?_set hd with ⟨-, rfl⟩ | ⟨-, hd⟩
    · exact hregistered semaphore hphase
    · exact h.registered j d semaphore hd hphase
  · obtain ⟨old, hold, heq⟩ := hpermits semaphore free hfree
    have hsum := h.permits semaphore old hold
    have hcount := Pool.countP_set (p := fun c : Call => c.phase.takes semaphore) hc
      { c with phase }
    show free + (s.calls.set i { c with phase }).countP _ = _
    dsimp only at hcount
    omega
  · have hsum := h.global
    have hcount := Pool.countP_set (p := fun c : Call => c.phase.takesGlobal) hc { c with phase }
    show global + (s.calls.set i { c with phase }).countP _ = _
    unfold State.heldGlobal at hsum
    dsimp only at hcount
    omega

theorem goTo (h : Inv s) (hc : s.calls[i]? = some c) {phase : Phase} {global : ℕ}
    (hregistered : ∀ semaphore, phase.semaphore = some semaphore →
      (c.session, semaphore) ∈ s.sessions)
    (htakes : ∀ semaphore, phase.takes semaphore = c.phase.takes semaphore)
    (hglobal : global + (if phase.takesGlobal then 1 else 0) =
      s.global + (if c.phase.takesGlobal then 1 else 0)) :
    Inv { s.goTo i c phase with global := global } :=
  h.move hc hregistered rfl (fun semaphore free hfree => ⟨free, hfree, by rw [htakes]⟩) hglobal

/-- A step that takes a permit of the call's semaphore or gives it back. -/
theorem setPermits (h : Inv s) (hc : s.calls[i]? = some c) {phase : Phase}
    {semaphore free free' : ℕ} (hfree : s.semaphores[semaphore]? = some free)
    (howned : c.phase.semaphore = some semaphore) (hsame : phase.semaphore = some semaphore)
    (hothers : ∀ other, other ≠ semaphore → phase.takes other = c.phase.takes other)
    (hpermits : free' + (if phase.takes semaphore then 1 else 0) =
      free + (if c.phase.takes semaphore then 1 else 0))
    (hglobal : phase.takesGlobal = c.phase.takesGlobal) :
    Inv { s.goTo i c phase with semaphores := s.semaphores.set semaphore free' } := by
  refine h.move hc (fun other hother => ?_) List.length_set (fun other new hnew => ?_)
    (by rw [hglobal]; rfl)
  · obtain rfl := Option.some.inj (hsame.symm.trans hother)
    exact h.registered i c semaphore hc howned
  · rcases Pool.getElem?_set hnew with ⟨rfl, rfl⟩ | ⟨hne, hold⟩
    · exact ⟨free, hfree, hpermits⟩
    · exact ⟨new, hold, by rw [hothers other hne]⟩

/-- **Each step of a call keeps the invariant.** -/
theorem callStep (h : Inv s) (hc : s.calls[i]? = some c) {phase : Phase} (hphase : c.phase = phase)
    {action : Action} {s' : State} (hstep : s.callStep i c phase action = some s') : Inv s' := by
  have howned : ∀ semaphore, c.phase.semaphore = some semaphore →
      (c.session, semaphore) ∈ s.sessions := fun semaphore => h.registered i c semaphore hc
  unfold State.callStep at hstep
  split at hstep
  case h_1 =>
    split_ifs at hstep
    obtain ⟨entry, hentry, rfl⟩ := Option.map_eq_some_iff.mp hstep
    have hin := List.mem_of_find?_eq_some hentry
    have hfound := List.find?_some hentry
    have hkey : entry.1 = c.session := of_decide_eq_true hfound
    have hcalls : (s.register c.session).calls = s.calls := by
      unfold State.register
      split_ifs <;> rfl
    refine (h.register c.session).goTo (hcalls ▸ hc) (fun semaphore hsemaphore => ?_)
      (fun semaphore => by rw [hphase]; rfl) (by rw [hphase]; rfl)
    obtain rfl := Option.some.inj hsemaphore
    exact hkey ▸ hin
  case h_2 semaphore =>
    obtain ⟨free, hfree, hpos, rfl⟩ := Pool.act_eq_some.mp hstep
    refine h.setPermits hc hfree (hphase ▸ rfl) rfl (fun other hne => ?_) ?_ (by rw [hphase]; rfl)
    · rw [hphase]
      exact decide_eq_false hne.symm
    · rw [hphase]
      simp only [Phase.takes, decide_true, if_true, Bool.false_eq_true, if_false]
      omega
  case h_3 semaphore =>
    split_ifs at hstep with hpos
    obtain rfl := Option.some.inj hstep
    refine h.goTo hc (fun other hother => howned other (hphase ▸ hother))
      (fun other => by rw [hphase]; rfl) ?_
    rw [hphase]
    simp only [Phase.takesGlobal, if_true, Bool.false_eq_true, if_false]
    omega
  case h_4 | h_5 | h_9 =>
    obtain rfl := Option.some.inj hstep
    exact h.goTo hc (fun _ hnone => by cases hnone) (fun _ => by rw [hphase]; rfl)
      (by rw [hphase]; rfl)
  case h_6 semaphore | h_7 semaphore =>
    obtain ⟨free, hfree, rfl⟩ := Option.map_eq_some_iff.mp hstep
    refine h.setPermits hc hfree (hphase ▸ rfl) rfl (fun other hne => ?_) ?_ (by rw [hphase]; rfl)
    · rw [hphase]
      exact (decide_eq_false hne.symm).symm
    · rw [hphase]
      simp [Phase.takes]
  case h_8 semaphore withGlobal =>
    obtain rfl := Option.some.inj hstep
    refine h.goTo hc (fun _ hnone => ?_) (fun _ => ?_) ?_
    · cases withGlobal <;> cases hnone
    · rw [hphase]
      cases withGlobal <;> rfl
    · rw [hphase]
      cases withGlobal <;> rfl
  case h_10 => cases hstep

/-- **A removed entry**: nobody points to its semaphore. -/
theorem visit (h : Inv s) {u : Update} {s' : State} (hstep : s.visit u = some s') : Inv s' := by
  unfold State.visit at hstep
  split at hstep
  case h_1 => cases hstep
  case h_2 session todo htodo =>
    obtain ⟨entry, hentry, rfl⟩ := Option.map_eq_some_iff.mp hstep
    have hin := List.mem_of_find?_eq_some hentry
    have hfound := List.find?_some hentry
    have hkey : entry.1 = session := of_decide_eq_true hfound
    split_ifs with hkept
    · exact ⟨h.keys, h.valid, h.registered, h.permits, h.global⟩
    · rw [not_or] at hkept
      refine ⟨h.keys.sublist (List.filter_sublist.map Prod.fst),
        fun entry hentry => h.valid entry (List.mem_of_mem_filter hentry),
        fun i c semaphore hc hphase => ?_, h.permits, h.global⟩
      have hregistered := h.registered i c semaphore hc hphase
      refine List.mem_filter.mpr ⟨hregistered, decide_eq_true fun hsession => hkept.2 ?_⟩
      have hsame : entry.2 = semaphore :=
        h.unique (show (entry.1, entry.2) ∈ s.sessions from hin)
          (hkey.trans hsession.symm ▸ hregistered)
      have hmap : 0 < s.sessions.countP fun other => other.2 = entry.2 :=
        List.countP_pos_iff.mpr ⟨entry, hin, decide_eq_true rfl⟩
      have hcall : 0 < s.calls.countP fun c => c.phase.semaphore = some entry.2 :=
        List.countP_pos_iff.mpr ⟨c, List.mem_of_getElem? hc,
          decide_eq_true (hphase.trans (congrArg some hsame.symm))⟩
      unfold State.strongCount
      omega

/-- **Each event keeps the invariant.** -/
theorem step (h : Inv s) {event : Event} {s' : State} (hstep : s.step event = some s') :
    Inv s' := by
  cases event with
  | acquire session =>
    obtain rfl := Option.some.inj hstep
    refine ⟨h.keys, h.valid, fun i c semaphore hc hphase => ?_, fun semaphore free hfree => ?_, ?_⟩
    · rcases Pool.getElem?_add hc with ⟨-, rfl⟩ | hc
      · cases hphase
      · exact h.registered i c semaphore hc hphase
    · show free + (s.calls ++ [_]).countP _ = _
      rw [List.countP_append]
      exact h.permits semaphore free hfree
    · show s.global + (s.calls ++ [_]).countP _ = _
      rw [List.countP_append]
      exact h.global
  | call i action =>
    obtain ⟨c, hc, hstep⟩ := Option.bind_eq_some_iff.mp hstep
    exact h.callStep hc rfl hstep
  | update allowed =>
    unfold State.step at hstep
    dsimp only at hstep
    split_ifs at hstep
    obtain rfl := Option.some.inj hstep
    exact ⟨h.keys, h.valid, h.registered, h.permits, h.global⟩
  | visit =>
    obtain ⟨u, -, hstep⟩ := Option.bind_eq_some_iff.mp hstep
    exact h.visit hstep
  | finish =>
    obtain ⟨u, -, -, rfl⟩ := Pool.act_eq_some.mp hstep
    obtain ⟨hkeys, hvalid, hregistered, hpermits, hglobal⟩ := h.registerAll u.allowed
    exact ⟨hkeys, hvalid, hregistered, hpermits, hglobal⟩

theorem held_le (h : Inv s) (session : String) :
    s.held session ≤ maxApiExecConcurrencyPerSession := by
  rcases Nat.eq_zero_or_pos (s.held session) with hzero | hpos
  · rw [hzero]
    exact Nat.zero_le _
  · obtain ⟨c, hc, htakes⟩ := List.countP_pos_iff.mp hpos
    rw [Bool.and_eq_true, decide_eq_true_eq] at htakes
    obtain ⟨i, hi⟩ := List.mem_iff_getElem?.mp hc
    have hsemaphore : ∀ {phase : Phase}, phase.takesSession = true →
        ∃ semaphore, phase.semaphore = some semaphore ∧ phase.takes semaphore = true := by
      intro phase hphase
      cases phase with
      | halfway semaphore => exact ⟨semaphore, rfl, decide_eq_true rfl⟩
      | holding semaphore => exact ⟨semaphore, rfl, decide_eq_true rfl⟩
      | begun => cases hphase
      | queued _ => cases hphase
      | returning _ _ => cases hphase
      | releasing => cases hphase
      | ended => cases hphase
    obtain ⟨semaphore, howned, -⟩ := hsemaphore htakes.2
    have hin := htakes.1 ▸ h.registered i c semaphore hi howned
    have hlt := h.valid _ hin
    have hsum := h.permits semaphore _ (List.getElem?_eq_getElem hlt)
    have hle : s.held session ≤ s.calls.countP fun c => c.phase.takes semaphore := by
      refine List.countP_mono_left fun d hd hdt => ?_
      rw [Bool.and_eq_true, decide_eq_true_eq] at hdt
      obtain ⟨j, hj⟩ := List.mem_iff_getElem?.mp hd
      obtain ⟨semaphore', howned', htakes'⟩ := hsemaphore hdt.2
      have hin' := hdt.1 ▸ h.registered j d semaphore' hj howned'
      rw [h.unique hin hin']
      exact htakes'
    omega

end Inv

/-- **The limits hold in every run**, whatever is authorised and revoked: at most 4 permits of a
session are held, and at most 16 in all. -/
theorem permits_of_run {allowed : List String} {es : List Event} {s : State}
    (hrun : (limiter allowed).run es = some s) :
    (∀ session, s.held session ≤ maxApiExecConcurrencyPerSession) ∧
      s.heldGlobal ≤ maxApiExecConcurrency := by
  have h : Inv s := Machine.run_invariant (Inv.init allowed)
    (fun _ _ _ h hstep => h.step hstep) hrun
  refine ⟨h.held_le, ?_⟩
  have hsum := h.global
  omega

/-- A session is revoked while a command runs, and authorised again before another one. -/
def reauthorized : List Event :=
  [.acquire "s1", .call 0 .enter, .call 0 .takeSession, .call 0 .takeGlobal, .update [], .visit,
    .finish, .update ["s1"], .visit, .finish, .acquire "s1", .call 1 .enter, .call 1 .takeSession,
    .call 1 .takeGlobal]

/-- Both commands hold a permit of the one semaphore. -/
theorem permits_of_run_reauthorized : ∃ s, (limiter ["s1"]).run reauthorized = some s ∧
    s.held "s1" = 2 ∧ s.semaphores = [2] ∧ s.held "s1" ≤ maxApiExecConcurrencyPerSession := by
  have hrun : ((limiter ["s1"]).run reauthorized).any (fun s =>
      s.held "s1" = 2 ∧ s.semaphores = [2]) = true := by decide +kernel
  obtain ⟨s, hs, hheld⟩ := Option.any_eq_true _ _ |>.mp hrun
  obtain ⟨htwo, hone⟩ := of_decide_eq_true hheld
  exact ⟨s, hs, htwo, hone, (permits_of_run hs).1 "s1"⟩

end Limiter
end Api
end HelmSsh
