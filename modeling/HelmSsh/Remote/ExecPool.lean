/-
# The warm channel for commands

`ExecChannelPool` of `src-tauri/src/remote/ssh.rs`.  Any number of calls of `schedule_refill`,
`take` and `close`, and the refill tasks, take their steps in any order; a step ends where the next
one touches what they share, or awaits.  A task that is aborted may go on until its next await and
ends there, and what it holds is dropped.  The critical sections of `refill_task` and of `idle` are
one step each; `close` keeps `idle` locked while it closes the channel that it found.

* `Owned.step` — every channel that was opened is in exactly one place.
* `pool_sound` — in every run of orderly steps, the flag is held while the pool is open by a call or
  a task that will release it, and nothing is idle once `close` has returned.
* `idle_after_close` — what happens when `close` takes the slot while a task that it does not hold
  has found the pool open.
-/

import HelmSsh.Machine
import HelmSsh.Pool

namespace HelmSsh
namespace Remote
namespace ExecPool

/-- Where a refill task is. -/
inductive RefillPhase where
  /-- `open_session_channel`. -/
  | opening
  /-- It has its channel and is about to look whether the pool is closed. -/
  | opened (channel : ℕ)
  /-- It waits for `idle`. -/
  | locking (channel : ℕ)
  /-- `close_ssh_channel`. -/
  | closing (channel : ℕ)
  /-- It is about to clear `refilling`. -/
  | releasing
  | ended
  deriving DecidableEq

/-- A refill task. -/
structure Refill where
  phase : RefillPhase
  aborted : Bool
  deriving DecidableEq

/-- The channel that a task holds. -/
def Refill.channel (t : Refill) : Option ℕ :=
  match t.phase with
  | .opened channel | .locking channel | .closing channel => some channel
  | _ => none

/-- Where a call of `schedule_refill` is. -/
inductive Scheduler where
  /-- It is about to look whether the pool is closed. -/
  | checking
  /-- It is about to set `refilling`. -/
  | claiming
  | spawning
  /-- It is about to store the handle of its task. -/
  | storing (task : ℕ)
  | done
  deriving DecidableEq

/-- Where a call of `take` is, or what it has returned. -/
inductive Taker where
  | taking
  /-- It closes a channel that was idle for too long. -/
  | expired (channel : ℕ)
  | got (channel : ℕ)
  | nothing
  deriving DecidableEq

/-- The channel that a call of `take` has. -/
def Taker.channel : Taker → Option ℕ
  | .expired channel | .got channel => some channel
  | _ => none

/-- Where a call of `close` is. -/
inductive Closer where
  | marking
  /-- It is about to take the task out of its slot. -/
  | slotting
  | joining (task : ℕ)
  /-- It is about to clear `refilling`. -/
  | resetting
  /-- It waits for `idle`. -/
  | emptying
  | closing (channel : ℕ)
  | returned
  deriving DecidableEq

/-- The channel that a call of `close` has. -/
def Closer.channel : Closer → Option ℕ
  | .closing channel => some channel
  | _ => none

/-- The pool, the calls and tasks, and what became of the channels. -/
structure State where
  idle : Option ℕ
  /-- `refill_task`. -/
  slot : Option ℕ
  refilling : Bool
  closed : Bool
  schedulers : List Scheduler
  tasks : List Refill
  takers : List Taker
  closers : List Closer
  /-- How many channels were opened. -/
  opened : ℕ
  closedChannels : List ℕ
  /-- The channels of aborted tasks. -/
  dropped : List ℕ
  deriving DecidableEq

/-- What a task does next. -/
inductive RefillMove where
  | openOk
  | openFails
  | next
  | canceled
  deriving DecidableEq

/-- The steps of the calls and tasks. -/
inductive Event where
  | schedule
  | take
  | close
  | scheduler (i : ℕ)
  | task (i : ℕ) (move : RefillMove)
  /-- A call of `take`, which finds a channel within `EXEC_CHANNEL_MAX_IDLE` or not. -/
  | taker (i : ℕ) (fresh : Bool)
  | closer (i : ℕ)
  deriving DecidableEq

namespace State

/-- A call of `close` keeps `idle` locked. -/
def locked (s : State) : Bool :=
  s.closers.any fun c => c.channel.isSome

/-- `abort`. -/
def abort (s : State) (k : ℕ) : State :=
  { s with tasks := s.tasks.modify k fun t => { t with aborted := true } }

/-- The `i`-th task goes on. -/
def taskTo (s : State) (i : ℕ) (t : Refill) (phase : RefillPhase) : State :=
  { s with tasks := s.tasks.set i { t with phase } }

/-- The `i`-th task ends at an await, and its channel is dropped. -/
def drop (s : State) (i : ℕ) (t : Refill) (channel : ℕ) : State :=
  { s with
    tasks := s.tasks.set i { t with phase := .ended }
    dropped := channel :: s.dropped }

/-- Whether a task has come to its end. -/
def isFinished (s : State) (k : ℕ) : Bool :=
  s.tasks[k]?.any fun t => t.phase = .ended

end State

/-- A step of `schedule_refill`. -/
def schedulerStep (s : State) (i : ℕ) : Scheduler → Option State
  | .checking =>
    some { s with schedulers := s.schedulers.set i (if s.closed then .done else .claiming) }
  | .claiming =>
    some (if s.refilling then { s with schedulers := s.schedulers.set i .done }
      else { s with schedulers := s.schedulers.set i .spawning, refilling := true })
  | .spawning =>
    some { s with
      schedulers := s.schedulers.set i (.storing s.tasks.length)
      tasks := s.tasks ++ [{ phase := .opening, aborted := false }] }
  | .storing k =>
    let s := { s with schedulers := s.schedulers.set i .done }
    some (if s.closed then { s.abort k with refilling := false }
      else match s.slot with
        | some previous =>
          { (if s.isFinished previous then s else s.abort previous) with slot := some k }
        | none => { s with slot := some k })
  | .done => none

/-- A step of a refill task. -/
def taskStep (s : State) (i : ℕ) (t : Refill) : RefillPhase → RefillMove → Option State
  | .opening, .openOk =>
    some { s with
      tasks := s.tasks.set i { t with phase := .opened s.opened }
      opened := s.opened + 1 }
  | .opening, .openFails => some (s.taskTo i t .releasing)
  | .opened channel, .next =>
    some (s.taskTo i t (if s.closed then .closing channel else .locking channel))
  | .locking channel, .next =>
    if s.locked then none
    else some (match s.idle with
      | none =>
        { s with
          tasks := s.tasks.set i { t with phase := .releasing }
          idle := some channel }
      | some _ => s.taskTo i t (.closing channel))
  | .closing channel, .next =>
    some { s with
      tasks := s.tasks.set i { t with phase := .releasing }
      closedChannels := channel :: s.closedChannels }
  | .releasing, .next =>
    some { s with
      tasks := s.tasks.set i { t with phase := .ended }
      refilling := false }
  | .opening, .canceled => if t.aborted then some (s.taskTo i t .ended) else none
  | .locking channel, .canceled => if t.aborted then some (s.drop i t channel) else none
  | .closing channel, .canceled => if t.aborted then some (s.drop i t channel) else none
  | _, _ => none

/-- A step of `take`. -/
def takerStep (s : State) (i : ℕ) (fresh : Bool) : Taker → Option State
  | .taking =>
    if s.locked then none
    else some (match s.idle with
      | none => { s with takers := s.takers.set i .nothing }
      | some channel =>
        { s with
          takers := s.takers.set i (if fresh then .got channel else .expired channel)
          idle := none })
  | .expired channel =>
    some { s with
      takers := s.takers.set i .nothing
      closedChannels := channel :: s.closedChannels }
  | _ => none

/-- A step of `close`. -/
def closerStep (s : State) (i : ℕ) : Closer → Option State
  | .marking => some { s with closers := s.closers.set i .slotting, closed := true }
  | .slotting =>
    some (match s.slot with
      | none => { s with closers := s.closers.set i .resetting }
      | some k => { s.abort k with closers := s.closers.set i (.joining k), slot := none })
  | .joining k =>
    if s.isFinished k then some { s with closers := s.closers.set i .resetting } else none
  | .resetting => some { s with closers := s.closers.set i .emptying, refilling := false }
  | .emptying =>
    if s.locked then none
    else some (match s.idle with
      | none => { s with closers := s.closers.set i .returned }
      | some channel => { s with closers := s.closers.set i (.closing channel), idle := none })
  | .closing channel =>
    some { s with
      closers := s.closers.set i .returned
      closedChannels := channel :: s.closedChannels }
  | .returned => none

/-- The effect of an event. -/
def step (s : State) : Event → Option State
  | .schedule => some { s with schedulers := s.schedulers ++ [.checking] }
  | .take => some { s with takers := s.takers ++ [.taking] }
  | .close => some { s with closers := s.closers ++ [.marking] }
  | .scheduler i => s.schedulers[i]?.bind fun phase => schedulerStep s i phase
  | .task i move => s.tasks[i]?.bind fun t => taskStep s i t t.phase move
  | .taker i fresh => s.takers[i]?.bind fun phase => takerStep s i fresh phase
  | .closer i => s.closers[i]?.bind fun phase => closerStep s i phase

/-- A pool, with all the calls on it. -/
def pool : Machine State Event where
  init :=
    { idle := none, slot := none, refilling := false, closed := false, schedulers := []
      tasks := [], takers := [], closers := [], opened := 0, closedChannels := [], dropped := [] }
  step := step

/-! ### Where the channels are -/

/-- How often a place that has at most one channel has a given one. -/
def holds (place : Option ℕ) (channel : ℕ) : ℕ :=
  if place = some channel then 1 else 0

/-- How often a channel is anywhere. -/
def owners (s : State) (channel : ℕ) : ℕ :=
  s.tasks.countP (fun t => t.channel = some channel) + holds s.idle channel +
    s.takers.countP (fun t => t.channel = some channel) +
    s.closers.countP (fun c => c.channel = some channel) +
    s.closedChannels.countP (fun c => c = channel) + s.dropped.countP (fun c => c = channel)

/-- Every channel that was opened is in exactly one place, and no other channel anywhere. -/
def Owned (s : State) : Prop :=
  ∀ channel, (channel < s.opened → owners s channel = 1) ∧
    (s.opened ≤ channel → owners s channel = 0)

theorem holds_none (channel : ℕ) : holds none channel = 0 := rfl

theorem holds_some (c channel : ℕ) : holds (some c) channel = if c = channel then 1 else 0 := by
  simp only [holds, Option.some.injEq]

variable {s s' : State} {i : ℕ} {event : Event} {t : Refill}

/-- Replacing one of several places changes the count by what the two have. -/
theorem countP_place {τ : Type} {pool : List τ} {t u : τ} (f : τ → Option ℕ)
    (h : pool[i]? = some t) (channel : ℕ) :
    (pool.set i u).countP (fun t => f t = some channel) + holds (f t) channel =
      pool.countP (fun t => f t = some channel) + holds (f u) channel := by
  have hset := Pool.countP_set (p := fun t => decide (f t = some channel)) h u
  simp only [decide_eq_true_eq] at hset
  exact hset

theorem Owned.of_eq (howned : Owned s) (hopened : s'.opened = s.opened)
    (howners : ∀ channel, owners s' channel = owners s channel) : Owned s' := by
  intro channel
  rw [hopened, howners]
  exact howned channel

theorem owners_abort (s : State) (k channel : ℕ) :
    owners (s.abort k) channel = owners s channel := by
  have htasks : (s.abort k).tasks.countP (fun t => t.channel = some channel) =
      s.tasks.countP (fun t => t.channel = some channel) := by
    refine Pool.countP_modify fun t => ?_
    rfl
  rw [owners, htasks]
  rfl

/-- A step of a call of `schedule_refill` moves no channel. -/
theorem Owned.scheduler {phase : Scheduler} (howned : Owned s)
    (h : schedulerStep s i phase = some s') : Owned s' := by
  cases phase with
  | checking =>
    obtain rfl := Option.some.inj h
    exact howned.of_eq rfl fun _ => rfl
  | claiming =>
    obtain rfl := Option.some.inj h
    split_ifs
    · exact howned.of_eq rfl fun _ => rfl
    · exact howned.of_eq rfl fun _ => rfl
  | spawning =>
    obtain rfl := Option.some.inj h
    refine howned.of_eq rfl fun channel => ?_
    simp only [owners, List.countP_append]
    rfl
  | storing k =>
    obtain rfl := Option.some.inj h
    dsimp only
    split_ifs
    · exact howned.of_eq rfl fun channel => owners_abort s k channel
    · split
      · split_ifs
        · exact howned.of_eq rfl fun _ => rfl
        · exact howned.of_eq rfl fun channel => owners_abort s _ channel
      · exact howned.of_eq rfl fun _ => rfl
  | done => cases h

/-- A task that gives its channel to another place, or keeps it. -/
theorem Owned.of_task {t' : Refill} (howned : Owned s)
    (ht : s.tasks[i]? = some t) (htasks : s'.tasks = s.tasks.set i t')
    (htakers : s'.takers = s.takers) (hclosers : s'.closers = s.closers)
    (hopened : s'.opened = s.opened) (hmoved : ∀ channel,
      holds t'.channel channel + holds s'.idle channel +
          s'.closedChannels.countP (fun c => c = channel) +
          s'.dropped.countP (fun c => c = channel) =
        holds t.channel channel + holds s.idle channel +
          s.closedChannels.countP (fun c => c = channel) +
          s.dropped.countP (fun c => c = channel)) : Owned s' := by
  refine howned.of_eq hopened fun channel => ?_
  have hplace := countP_place (u := t') Refill.channel ht channel
  have hmove := hmoved channel
  unfold owners
  rw [htasks, htakers, hclosers]
  omega

theorem Owned.task {move : RefillMove} (howned : Owned s)
    (ht : s.tasks[i]? = some t) (h : taskStep s i t t.phase move = some s') : Owned s' := by
  unfold taskStep at h
  split at h
  case h_1 hphase =>
    obtain rfl := Option.some.inj h
    intro channel
    obtain ⟨hin, hout⟩ := howned channel
    have hplace := countP_place (u := { t with phase := .opened s.opened }) Refill.channel ht
      channel
    simp only [Refill.channel, hphase, holds_some, holds_none] at hplace
    simp only [owners, Refill.channel] at hin hout ⊢
    constructor
    · intro hlt
      split_ifs at hplace <;> omega
    · intro hge
      split_ifs at hplace <;> omega
  case h_2 hphase =>
    obtain rfl := Option.some.inj h
    refine howned.of_task ht rfl rfl rfl rfl fun channel => ?_
    simp only [State.taskTo, Refill.channel, hphase]
  case h_3 c hphase =>
    obtain rfl := Option.some.inj h
    refine howned.of_task ht rfl rfl rfl rfl fun channel => ?_
    split_ifs <;> simp only [State.taskTo, Refill.channel, hphase]
  case h_4 c hphase =>
    split at h
    · cases h
    · obtain rfl := Option.some.inj h
      cases hidle : s.idle with
      | none =>
        refine howned.of_task ht rfl rfl rfl rfl fun channel => ?_
        simp only [Refill.channel, hphase, hidle, holds_none]
        omega
      | some other =>
        refine howned.of_task ht rfl rfl rfl rfl fun channel => ?_
        simp only [State.taskTo, Refill.channel, hphase]
  case h_5 c hphase =>
    obtain rfl := Option.some.inj h
    refine howned.of_task ht rfl rfl rfl rfl fun channel => ?_
    simp only [Refill.channel, hphase, holds_some, holds_none, List.countP_cons, decide_eq_true_eq]
    omega
  case h_6 hphase =>
    obtain rfl := Option.some.inj h
    refine howned.of_task ht rfl rfl rfl rfl fun channel => ?_
    simp only [Refill.channel, hphase]
  case h_7 hphase =>
    split at h
    · obtain rfl := Option.some.inj h
      refine howned.of_task ht rfl rfl rfl rfl fun channel => ?_
      simp only [State.taskTo, Refill.channel, hphase]
    · cases h
  case h_8 c hphase | h_9 c hphase =>
    split at h
    · obtain rfl := Option.some.inj h
      refine howned.of_task ht rfl rfl rfl rfl fun channel => ?_
      simp only [State.drop, Refill.channel, hphase, holds_some, holds_none, List.countP_cons,
        decide_eq_true_eq]
      omega
    · cases h
  case h_10 => cases h

/-- A step of `take` moves the idle channel. -/
theorem Owned.taker {fresh : Bool} {phase : Taker} (howned : Owned s)
    (hphase : s.takers[i]? = some phase) (h : takerStep s i fresh phase = some s') :
    Owned s' := by
  cases phase with
  | taking =>
    rw [takerStep] at h
    split at h
    · cases h
    · obtain rfl := Option.some.inj h
      cases hidle : s.idle with
      | none =>
        refine howned.of_eq rfl fun channel => ?_
        have hplace := countP_place (u := .nothing) Taker.channel hphase channel
        have hnone : holds (Taker.channel .nothing) channel =
            holds (Taker.channel .taking) channel :=
          rfl
        simp only [owners, hidle]
        omega
      | some c =>
        refine howned.of_eq rfl fun channel => ?_
        have hplace :=
          countP_place (u := if fresh then .got c else .expired c) Taker.channel hphase channel
        have hnew : Taker.channel (if fresh then .got c else .expired c) = some c := by
          cases fresh <;> rfl
        have hnone : holds (Taker.channel .taking) channel = 0 := rfl
        rw [hnew] at hplace
        simp only [owners, hidle, holds_none]
        omega
  | expired c =>
    obtain rfl := Option.some.inj h
    refine howned.of_eq rfl fun channel => ?_
    have hplace := countP_place (u := .nothing) Taker.channel hphase channel
    have hold : holds (Taker.channel (.expired c)) channel = if c = channel then 1 else 0 :=
      holds_some c channel
    have hnone : holds (Taker.channel .nothing) channel = 0 := rfl
    simp only [owners, List.countP_cons, decide_eq_true_eq]
    omega
  | got c => cases h
  | nothing => cases h

/-- A step of `close` moves the idle channel. -/
theorem Owned.closer {phase : Closer} (howned : Owned s)
    (hphase : s.closers[i]? = some phase) (h : closerStep s i phase = some s') : Owned s' := by
  have hsame : ∀ next : Closer, phase.channel = none → next.channel = none → ∀ channel,
      (s.closers.set i next).countP (fun c => c.channel = some channel) =
        s.closers.countP (fun c => c.channel = some channel) := by
    intro next hbefore hafter channel
    have hplace := countP_place (u := next) Closer.channel hphase channel
    rw [hbefore, hafter] at hplace
    omega
  cases phase with
  | marking =>
    obtain rfl := Option.some.inj h
    refine howned.of_eq rfl fun channel => ?_
    simp only [owners, hsame .slotting rfl rfl]
  | slotting =>
    obtain rfl := Option.some.inj h
    cases hslot : s.slot with
    | none =>
      refine howned.of_eq rfl fun channel => ?_
      simp only [owners, hsame .resetting rfl rfl]
    | some k =>
      refine howned.of_eq rfl fun channel => ?_
      rw [← owners_abort s k channel]
      simp only [owners, hsame (.joining k) rfl rfl]
      rfl
  | joining k =>
    rw [closerStep] at h
    split at h
    · obtain rfl := Option.some.inj h
      refine howned.of_eq rfl fun channel => ?_
      simp only [owners, hsame .resetting rfl rfl]
    · cases h
  | resetting =>
    obtain rfl := Option.some.inj h
    refine howned.of_eq rfl fun channel => ?_
    simp only [owners, hsame .emptying rfl rfl]
  | emptying =>
    rw [closerStep] at h
    split at h
    · cases h
    · obtain rfl := Option.some.inj h
      cases hidle : s.idle with
      | none =>
        refine howned.of_eq rfl fun channel => ?_
        simp only [owners, hidle, hsame .returned rfl rfl]
      | some c =>
        refine howned.of_eq rfl fun channel => ?_
        have hplace := countP_place (u := .closing c) Closer.channel hphase channel
        have hnone : holds (Closer.channel .emptying) channel = 0 := rfl
        have hnew : holds (Closer.channel (.closing c)) channel = holds (some c) channel := rfl
        simp only [owners, hidle, holds_none]
        omega
  | closing c =>
    obtain rfl := Option.some.inj h
    refine howned.of_eq rfl fun channel => ?_
    have hplace := countP_place (u := .returned) Closer.channel hphase channel
    have hold : holds (Closer.channel (.closing c)) channel = if c = channel then 1 else 0 :=
      holds_some c channel
    have hnone : holds (Closer.channel .returned) channel = 0 := rfl
    simp only [owners, List.countP_cons, decide_eq_true_eq]
    omega
  | returned => cases h

/-- **Each step keeps every channel in exactly one place.** -/
theorem Owned.step (howned : Owned s) (h : step s event = some s') : Owned s' := by
  cases event with
  | schedule =>
    obtain rfl := Option.some.inj h
    exact howned.of_eq rfl fun _ => rfl
  | take | close =>
    obtain rfl := Option.some.inj h
    refine howned.of_eq rfl fun channel => ?_
    simp only [owners, List.countP_append]
    rfl
  | scheduler i =>
    obtain ⟨phase, -, hstep⟩ := Option.bind_eq_some_iff.mp h
    exact howned.scheduler hstep
  | task i move =>
    obtain ⟨t, ht, hstep⟩ := Option.bind_eq_some_iff.mp h
    exact howned.task ht hstep
  | taker i fresh =>
    obtain ⟨phase, hphase, hstep⟩ := Option.bind_eq_some_iff.mp h
    exact howned.taker hphase hstep
  | closer i =>
    obtain ⟨phase, hphase, hstep⟩ := Option.bind_eq_some_iff.mp h
    exact howned.closer hphase hstep

/-! ### The flag, and the pool after its close -/

/-- The task has found the pool open and waits for `idle`. -/
def Refill.locking (t : Refill) : Bool :=
  match t.phase with
  | .locking _ => true
  | _ => false

/-- The calls and tasks that have set `refilling` and are to clear it. -/
def holders (s : State) : ℕ :=
  s.schedulers.countP (fun phase => phase = .spawning) +
    s.tasks.countP (fun t => t.phase ≠ .ended)

/-- A call is about to store the handle of its task. -/
def Scheduler.isStoring : Scheduler → Bool
  | .storing _ => true
  | _ => false

/-- A call of `close` has waited for the task that it took. -/
def Closer.Past : Closer → Prop
  | .resetting | .emptying | .closing _ | .returned => True
  | _ => False

/-- A call of `close` has emptied the pool. -/
def Closer.Emptied : Closer → Prop
  | .closing _ | .returned => True
  | _ => False

/-- What a step must meet: a call of `schedule_refill` that stores the handle of its task in an open
pool finds no task there that has yet to do more than clear the flag; and when `close` takes the
slot, no other task has found the pool open and waits for `idle`. -/
def Orderly (s : State) : Event → Prop
  | .scheduler i => ∀ phase ∈ s.schedulers[i]?, phase.isStoring = true → s.closed = false →
    ∀ p ∈ s.slot, ∀ t ∈ s.tasks[p]?, t.phase = .releasing ∨ t.phase = .ended
  | .closer i => s.closers[i]? = some .slotting →
    ∀ j < s.tasks.length, ∀ t ∈ s.tasks[j]?, t.locking = true → s.slot = some j
  | _ => True

instance (s : State) : (event : Event) → Decidable (Orderly s event)
  | .scheduler i => inferInstanceAs (Decidable (∀ phase ∈ s.schedulers[i]?, _))
  | .closer _ => inferInstanceAs (Decidable (_ → _))
  | .schedule | .take | .close | .task _ _ | .taker _ _ => isTrue trivial

/-- The invariant of a pool whose steps are orderly. -/
structure Inv (s : State) : Prop where
  closed : ∀ c ∈ s.closers, c ≠ .marking → s.closed = true
  flag : s.closed = false → holders s = if s.refilling then 1 else 0
  aborted : s.closed = false → ∀ t ∈ s.tasks, t.aborted = true →
    t.phase = .releasing ∨ t.phase = .ended
  joining : ∀ k, Closer.joining k ∈ s.closers →
    ∀ (j : ℕ) (t : Refill), s.tasks[j]? = some t → t.locking = true → j = k
  past : ∀ c ∈ s.closers, c.Past → ∀ t ∈ s.tasks, t.locking = false
  emptied : ∀ c ∈ s.closers, c.Emptied → s.idle = none

/-- What a step of a task does. -/
structure TaskMoved (s s' : State) (i : ℕ) (t t' : Refill) : Prop where
  tasks : s'.tasks = s.tasks.set i t'
  slot : s'.slot = s.slot
  closed : s'.closed = s.closed
  schedulers : s'.schedulers = s.schedulers
  closers : s'.closers = s.closers
  aborted : t'.aborted = t.aborted
  running : t.phase ≠ .ended
  locking : t'.locking = true → s.closed = false
  idle : s'.idle = s.idle ∨ t.locking = true
  flag : (t.phase = .releasing ∧ t'.phase = .ended ∧ s'.refilling = false) ∨
    (t.phase ≠ .releasing ∧ s'.refilling = s.refilling ∧ (t'.phase = .ended → t.aborted = true))

/-- **A step of a task** leaves the calls, the slot and whether the pool is closed. -/
theorem taskStep_spec {move : RefillMove}
    (h : taskStep s i t t.phase move = some s') : ∃ t', TaskMoved s s' i t t' := by
  unfold taskStep at h
  split at h
  case h_1 hphase | h_2 hphase | h_5 c hphase =>
    obtain rfl := Option.some.inj h
    exact ⟨_, rfl, rfl, rfl, rfl, rfl, rfl, by simp [hphase], nofun, .inl rfl,
      .inr ⟨by simp [hphase], rfl, nofun⟩⟩
  case h_3 c hphase =>
    obtain rfl := Option.some.inj h
    by_cases hclosed : s.closed = true
    · rw [if_pos hclosed]
      exact ⟨_, rfl, rfl, rfl, rfl, rfl, rfl, by simp [hphase], nofun, .inl rfl,
        .inr ⟨by simp [hphase], rfl, nofun⟩⟩
    · rw [if_neg hclosed]
      exact ⟨_, rfl, rfl, rfl, rfl, rfl, rfl, by simp [hphase],
        fun _ => Bool.eq_false_iff.mpr hclosed, .inl rfl, .inr ⟨by simp [hphase], rfl, nofun⟩⟩
  case h_4 c hphase =>
    have hlocking : t.locking = true := by simp [Refill.locking, hphase]
    split at h
    · cases h
    · obtain rfl := Option.some.inj h
      split
      · exact ⟨_, rfl, rfl, rfl, rfl, rfl, rfl, by simp [hphase], nofun, .inr hlocking,
          .inr ⟨by simp [hphase], rfl, nofun⟩⟩
      · exact ⟨_, rfl, rfl, rfl, rfl, rfl, rfl, by simp [hphase], nofun, .inl rfl,
          .inr ⟨by simp [hphase], rfl, nofun⟩⟩
  case h_6 hphase =>
    obtain rfl := Option.some.inj h
    exact ⟨_, rfl, rfl, rfl, rfl, rfl, rfl, by simp [hphase], nofun, .inl rfl,
      .inl ⟨hphase, rfl, rfl⟩⟩
  case h_7 hphase | h_8 c hphase | h_9 c hphase =>
    split at h
    case isTrue haborted =>
      obtain rfl := Option.some.inj h
      exact ⟨_, rfl, rfl, rfl, rfl, rfl, rfl, by simp [hphase], nofun, .inl rfl,
        .inr ⟨by simp [hphase], rfl, fun _ => haborted⟩⟩
    case isFalse => cases h
  case h_10 => cases h

theorem Inv.task {t' : Refill} (hinv : Inv s)
    (ht : s.tasks[i]? = some t) (hmoved : TaskMoved s s' i t t') : Inv s' := by
  have hmem : ∀ u ∈ s'.tasks, u ∈ s.tasks ∨ u = t' := by
    intro u hu
    rw [hmoved.tasks] at hu
    exact List.mem_or_eq_of_mem_set hu
  refine ⟨?_, ?_, ?_, ?_, ?_, ?_⟩
  · rw [hmoved.closers, hmoved.closed]
    exact hinv.closed
  · intro hopen
    rw [hmoved.closed] at hopen
    have hflag := hinv.flag hopen
    have hcount := Pool.countP_set (p := fun t => decide (t.phase ≠ .ended)) ht t'
    simp only [decide_eq_true_eq, if_pos hmoved.running] at hcount
    unfold holders at hflag ⊢
    rw [hmoved.schedulers, hmoved.tasks]
    rcases hmoved.flag with ⟨-, hended, hrefilling⟩ | ⟨hphase, hrefilling, hended⟩
    · rw [if_neg (fun h => h hended)] at hcount
      rw [hrefilling, if_neg (by nofun)]
      split_ifs at hflag <;> omega
    · have hrunning : t'.phase ≠ .ended := by
        intro hend
        rcases hinv.aborted hopen t (List.mem_of_getElem? ht) (hended hend) with h | h
        · exact hphase h
        · exact hmoved.running h
      rw [if_pos hrunning] at hcount
      rw [hrefilling]
      omega
  · intro hopen u hu haborted
    rw [hmoved.closed] at hopen
    rcases hmem u hu with hold | rfl
    · exact hinv.aborted hopen u hold haborted
    · rw [hmoved.aborted] at haborted
      have hreleasing := (hinv.aborted hopen t (List.mem_of_getElem? ht) haborted).resolve_right
        hmoved.running
      rcases hmoved.flag with ⟨-, hended, -⟩ | ⟨hphase, -⟩
      · exact .inr hended
      · exact absurd hreleasing hphase
  · intro k hk j u hu hlocking
    rw [hmoved.closers] at hk
    rw [hmoved.tasks] at hu
    rcases Pool.getElem?_set hu with ⟨rfl, rfl⟩ | ⟨-, hold⟩
    · have hclosed := hinv.closed _ hk nofun
      rw [hmoved.locking hlocking] at hclosed
      cases hclosed
    · exact hinv.joining k hk j u hold hlocking
  · intro c hc hpast u hu
    rw [hmoved.closers] at hc
    rcases hmem u hu with hold | rfl
    · exact hinv.past c hc hpast u hold
    · rw [Bool.eq_false_iff]
      intro hlocking
      have hclosed := hinv.closed c hc (by rintro rfl; exact hpast)
      rw [hmoved.locking hlocking] at hclosed
      cases hclosed
  · intro c hc hemptied
    rw [hmoved.closers] at hc
    rcases hmoved.idle with hidle | hlocking
    · rw [hidle]
      exact hinv.emptied c hc hemptied
    · have hpast : c.Past := by
        cases c with
        | closing channel => trivial
        | returned => trivial
        | _ => exact hemptied.elim
      rw [hinv.past c hc hpast t (List.mem_of_getElem? ht)] at hlocking
      cases hlocking

/-- An abort keeps the invariant; in an open pool, that of a task with nothing left but the flag. -/
theorem Inv.abort {k : ℕ} (hinv : Inv s)
    (hdone : s.closed = false → ∀ t ∈ s.tasks[k]?, t.phase = .releasing ∨ t.phase = .ended) :
    Inv (s.abort k) := by
  have hback : ∀ (j : ℕ) (u : Refill), (s.abort k).tasks[j]? = some u →
      ∃ t, s.tasks[j]? = some t ∧ u.phase = t.phase ∧ (u.aborted = t.aborted ∨ j = k) := by
    intro j u hu
    rw [State.abort, List.getElem?_modify] at hu
    obtain ⟨t, ht, heq⟩ := Option.map_eq_some_iff.mp hu
    refine ⟨t, ht, ?_⟩
    split_ifs at heq with hjk
    · rw [← heq]
      exact ⟨rfl, .inr hjk.symm⟩
    · rw [← heq]
      exact ⟨rfl, .inl rfl⟩
  have hlockingBack : ∀ (j : ℕ) (u : Refill), (s.abort k).tasks[j]? = some u →
      ∃ t, s.tasks[j]? = some t ∧ u.locking = t.locking := by
    intro j u hu
    obtain ⟨t, ht, hphase, -⟩ := hback j u hu
    exact ⟨t, ht, by rw [Refill.locking, Refill.locking, hphase]⟩
  refine ⟨hinv.closed, ?_, ?_, ?_, ?_, hinv.emptied⟩
  · intro hopen
    have hcount : (s.abort k).tasks.countP (fun t => t.phase ≠ .ended) =
        s.tasks.countP (fun t => t.phase ≠ .ended) := by
      refine Pool.countP_modify fun t => ?_
      rfl
    rw [holders, hcount]
    exact hinv.flag hopen
  · intro hopen u hu haborted
    obtain ⟨j, hj⟩ := List.mem_iff_getElem?.mp hu
    obtain ⟨t, ht, hphase, hsame | rfl⟩ := hback j u hj
    · rw [hphase]
      exact hinv.aborted hopen t (List.mem_of_getElem? ht) (hsame ▸ haborted)
    · rw [hphase]
      exact hdone hopen t ht
  · intro c hc j u hu hlocking
    obtain ⟨t, ht, hsame⟩ := hlockingBack j u hu
    exact hinv.joining c hc j t ht (hsame ▸ hlocking)
  · intro c hc hpast u hu
    obtain ⟨j, hj⟩ := List.mem_iff_getElem?.mp hu
    obtain ⟨t, ht, hsame⟩ := hlockingBack j u hj
    rw [hsame]
    exact hinv.past c hc hpast t (List.mem_of_getElem? ht)

/-- A step of a call of `schedule_refill` that does not touch the flag or the tasks. -/
theorem Inv.schedulerTo {phase next : Scheduler} (hinv : Inv s)
    (hi : s.schedulers[i]? = some phase) (hphase : phase ≠ .spawning) (hnext : next ≠ .spawning) :
    Inv { s with schedulers := s.schedulers.set i next } where
  closed := hinv.closed
  flag := by
    intro hopen
    have hcount := Pool.countP_set (p := fun phase => decide (phase = .spawning)) hi next
    simp only [decide_eq_true_eq, if_neg hphase, if_neg hnext] at hcount
    have hflag := hinv.flag hopen
    dsimp only [holders] at hflag ⊢
    omega
  aborted := hinv.aborted
  joining := hinv.joining
  past := hinv.past
  emptied := hinv.emptied

/-- A step of a call of `schedule_refill` keeps the invariant. -/
theorem Inv.scheduler {phase : Scheduler} (hinv : Inv s)
    (hi : s.schedulers[i]? = some phase) (hok : Orderly s (.scheduler i))
    (h : schedulerStep s i phase = some s') : Inv s' := by
  cases phase with
  | checking =>
    obtain rfl := Option.some.inj h
    refine hinv.schedulerTo hi nofun ?_
    split_ifs
    · nofun
    · nofun
  | claiming =>
    obtain rfl := Option.some.inj h
    by_cases hrefilling : s.refilling = true
    · rw [if_pos hrefilling]
      exact hinv.schedulerTo hi nofun nofun
    · rw [if_neg hrefilling]
      refine { hinv with flag := fun hopen => ?_ }
      have hcount := Pool.countP_set (p := fun phase => decide (phase = .spawning)) hi .spawning
      have hflag := hinv.flag hopen
      rw [if_neg hrefilling] at hflag
      simp only [decide_eq_true_eq, reduceCtorEq, if_false, if_true] at hcount
      dsimp only [holders] at hflag ⊢
      rw [if_pos rfl]
      omega
  | spawning =>
    obtain rfl := Option.some.inj h
    have hmem : ∀ t ∈ s.tasks ++ [{ phase := .opening, aborted := false }],
        t ∈ s.tasks ∨ t = { phase := .opening, aborted := false } := by
      intro t ht
      rcases List.mem_append.mp ht with hold | hnew
      · exact .inl hold
      · exact .inr (List.mem_singleton.mp hnew)
    refine ⟨hinv.closed, fun hopen => ?_, fun hopen t ht haborted => ?_,
      fun k hk j t ht hlocking => ?_, fun c hc hpast t ht => ?_, hinv.emptied⟩
    · have hcount := Pool.countP_set (p := fun phase => decide (phase = .spawning)) hi
        (.storing s.tasks.length)
      have hflag := hinv.flag hopen
      simp only [decide_eq_true_eq, reduceCtorEq, if_false, if_true] at hcount
      dsimp only [holders] at hflag ⊢
      have hnew : [({ phase := .opening, aborted := false } : Refill)].countP
          (fun t => t.phase ≠ .ended) = 1 := rfl
      rw [List.countP_append, hnew]
      omega
    · rcases hmem t ht with hold | rfl
      · exact hinv.aborted hopen t hold haborted
      · cases haborted
    · rcases Pool.getElem?_add ht with ⟨-, rfl⟩ | hold
      · cases hlocking
      · exact hinv.joining k hk j t hold hlocking
    · rcases hmem t ht with hold | rfl
      · exact hinv.past c hc hpast t hold
      · rfl
  | storing k =>
    obtain rfl := Option.some.inj h
    have hdone : Inv { s with schedulers := s.schedulers.set i .done } :=
      hinv.schedulerTo hi nofun nofun
    dsimp only
    by_cases hclosed : s.closed = true
    · rw [if_pos hclosed]
      have haborted := hdone.abort (k := k) fun hopen => by
        rw [show s.closed = false from hopen] at hclosed
        cases hclosed
      refine { haborted with flag := fun hopen => ?_ }
      rw [show s.closed = false from hopen] at hclosed
      cases hclosed
    · rw [if_neg hclosed]
      split
      case h_1 previous hslot =>
        by_cases hfinished : s.isFinished previous = true
        · rw [show State.isFinished { s with schedulers := s.schedulers.set i .done } previous =
            s.isFinished previous from rfl, if_pos hfinished]
          exact { hdone with }
        · rw [show State.isFinished { s with schedulers := s.schedulers.set i .done } previous =
            s.isFinished previous from rfl, if_neg hfinished]
          have haborted := hdone.abort (k := previous) fun _ t ht =>
            hok _ hi rfl (Bool.eq_false_iff.mpr hclosed) previous hslot t ht
          exact { haborted with }
      case h_2 => exact { hdone with }
  | done => cases h

/-- A call of `close` that goes on, in a pool that it has closed. -/
theorem Inv.closerTo {phase : Closer} (hinv : Inv s) (next : Closer)
    (idle : Option ℕ) (refilling : Bool) (closedChannels : List ℕ) (hi : s.closers[i]? = some phase)
    (hphase : phase ≠ .marking) (hidle : idle = s.idle ∨ idle = none)
    (hjoining : ∀ k, next = .joining k →
      ∀ (j : ℕ) (t : Refill), s.tasks[j]? = some t → t.locking = true → j = k)
    (hpast : next.Past → ∀ t ∈ s.tasks, t.locking = false) (hemptied : next.Emptied → idle = none) :
    Inv { s with closers := s.closers.set i next, idle, refilling, closedChannels } := by
  have hclosed : s.closed = true := hinv.closed phase (List.mem_of_getElem? hi) hphase
  have hopen : ¬ s.closed = false := by
    rw [hclosed]
    nofun
  refine ⟨fun _ _ _ => hclosed, fun h => absurd h hopen, fun h => absurd h hopen, ?_, ?_, ?_⟩
  · intro k hk
    rcases List.mem_or_eq_of_mem_set hk with hold | heq
    · exact hinv.joining k hold
    · exact hjoining k heq.symm
  · intro c hc
    rcases List.mem_or_eq_of_mem_set hc with hold | rfl
    · exact hinv.past c hold
    · exact hpast
  · intro c hc hnow
    rcases List.mem_or_eq_of_mem_set hc with hold | rfl
    · rcases hidle with rfl | rfl
      · exact hinv.emptied c hold hnow
      · rfl
    · exact hemptied hnow

/-- A step of a call of `close` keeps the invariant. -/
theorem Inv.closer {phase : Closer} (hinv : Inv s)
    (hi : s.closers[i]? = some phase) (hok : Orderly s (.closer i))
    (h : closerStep s i phase = some s') : Inv s' := by
  have hmem := List.mem_of_getElem? hi
  cases phase with
  | marking =>
    obtain rfl := Option.some.inj h
    refine ⟨fun _ _ _ => rfl, nofun, nofun, ?_, ?_, ?_⟩
    · intro k hk
      rcases List.mem_or_eq_of_mem_set hk with hold | heq
      · exact hinv.joining k hold
      · cases heq
    · intro c hc hpast
      rcases List.mem_or_eq_of_mem_set hc with hold | rfl
      · exact hinv.past c hold hpast
      · exact hpast.elim
    · intro c hc hemptied
      rcases List.mem_or_eq_of_mem_set hc with hold | rfl
      · exact hinv.emptied c hold hemptied
      · exact hemptied.elim
  | slotting =>
    obtain rfl := Option.some.inj h
    have hslot : ∀ (j : ℕ) (t : Refill), s.tasks[j]? = some t → t.locking = true →
        s.slot = some j := by
      intro j t ht
      obtain ⟨hlt, -⟩ := List.getElem?_eq_some_iff.mp ht
      exact hok hi j hlt t ht
    have hclosed := hinv.closed _ hmem nofun
    split
    case h_1 hs =>
      refine hinv.closerTo .resetting s.idle s.refilling s.closedChannels hi nofun (.inl rfl)
        nofun (fun _ t ht => ?_) (fun h => h.elim)
      obtain ⟨j, hj⟩ := List.mem_iff_getElem?.mp ht
      rw [Bool.eq_false_iff]
      intro hlocking
      rw [hslot j t hj hlocking] at hs
      cases hs
    case h_2 k hs =>
      have haborted := hinv.abort (k := k) fun hopen => by
        rw [hopen] at hclosed
        cases hclosed
      have honly : ∀ k', Closer.joining k = .joining k' → ∀ (j : ℕ) (u : Refill),
          (s.abort k).tasks[j]? = some u → u.locking = true → j = k' := by
        intro k' hk' j u hu hlocking
        cases hk'
        rw [State.abort, List.getElem?_modify] at hu
        obtain ⟨t, ht, rfl⟩ := Option.map_eq_some_iff.mp hu
        have hold : t.locking = true := by
          split_ifs at hlocking <;> exact hlocking
        have heq := hslot j t ht hold
        rw [hs] at heq
        exact (Option.some.inj heq).symm
      have hnext := haborted.closerTo (.joining k) s.idle s.refilling s.closedChannels hi nofun
        (.inl rfl) honly (fun h => h.elim) (fun h => h.elim)
      exact { hnext with }
  | joining k =>
    rw [closerStep] at h
    split at h
    case isTrue hfinished =>
      obtain rfl := Option.some.inj h
      refine hinv.closerTo .resetting s.idle s.refilling s.closedChannels hi nofun (.inl rfl)
        nofun (fun _ t ht => ?_) (fun h => h.elim)
      obtain ⟨j, hj⟩ := List.mem_iff_getElem?.mp ht
      rw [Bool.eq_false_iff]
      intro hlocking
      obtain rfl := hinv.joining k hmem j t hj hlocking
      rw [State.isFinished, hj, Option.any_some, decide_eq_true_eq] at hfinished
      rw [Refill.locking, hfinished] at hlocking
      cases hlocking
    case isFalse => cases h
  | resetting =>
    obtain rfl := Option.some.inj h
    exact hinv.closerTo .emptying s.idle false s.closedChannels hi nofun (.inl rfl) nofun
      (fun _ => hinv.past _ hmem trivial) (fun h => h.elim)
  | emptying =>
    rw [closerStep] at h
    split at h
    · cases h
    · obtain rfl := Option.some.inj h
      split
      case h_1 hidle =>
        exact hinv.closerTo .returned s.idle s.refilling s.closedChannels hi nofun (.inl rfl) nofun
          (fun _ => hinv.past _ hmem trivial) (fun _ => hidle)
      case h_2 c hidle =>
        exact hinv.closerTo (.closing c) none s.refilling s.closedChannels hi nofun (.inr rfl) nofun
          (fun _ => hinv.past _ hmem trivial) (fun _ => rfl)
  | closing c =>
    obtain rfl := Option.some.inj h
    exact hinv.closerTo .returned s.idle s.refilling (c :: s.closedChannels) hi nofun (.inl rfl)
      nofun (fun _ => hinv.past _ hmem trivial) (fun _ => hinv.emptied _ hmem trivial)
  | returned => cases h

/-- **Each orderly step keeps the invariant.** -/
theorem Inv.step (hinv : Inv s) (hok : Orderly s event) (h : step s event = some s') : Inv s' := by
  cases event with
  | schedule =>
    obtain rfl := Option.some.inj h
    refine { hinv with flag := fun hopen => ?_ }
    have hflag := hinv.flag hopen
    have hnew : [Scheduler.checking].countP (fun phase => phase = .spawning) = 0 := rfl
    dsimp only [holders] at hflag ⊢
    rw [List.countP_append, hnew]
    exact hflag
  | take =>
    obtain rfl := Option.some.inj h
    exact { hinv with }
  | close =>
    obtain rfl := Option.some.inj h
    have hmem : ∀ c ∈ s.closers ++ [.marking], c ∈ s.closers ∨ c = .marking := by
      intro c hc
      rcases List.mem_append.mp hc with hold | hnew
      · exact .inl hold
      · exact .inr (List.mem_singleton.mp hnew)
    refine ⟨fun c hc hne => ?_, hinv.flag, hinv.aborted, fun k hk => ?_, fun c hc hpast => ?_,
      fun c hc hemptied => ?_⟩
    · exact hinv.closed c ((hmem c hc).resolve_right hne) hne
    · exact hinv.joining k ((hmem _ hk).resolve_right nofun)
    · rcases hmem c hc with hold | rfl
      · exact hinv.past c hold hpast
      · exact hpast.elim
    · rcases hmem c hc with hold | rfl
      · exact hinv.emptied c hold hemptied
      · exact hemptied.elim
  | scheduler i =>
    obtain ⟨phase, hi, hstep⟩ := Option.bind_eq_some_iff.mp h
    exact hinv.scheduler hi hok hstep
  | task i move =>
    obtain ⟨t, ht, hstep⟩ := Option.bind_eq_some_iff.mp h
    obtain ⟨t', hmoved⟩ := taskStep_spec hstep
    exact hinv.task ht hmoved
  | taker i fresh =>
    obtain ⟨phase, hi, hstep⟩ := Option.bind_eq_some_iff.mp h
    cases phase with
    | taking =>
      rw [takerStep] at hstep
      split at hstep
      · cases hstep
      · obtain rfl := Option.some.inj hstep
        split
        · exact { hinv with }
        · exact { hinv with emptied := fun _ _ _ => rfl }
    | expired c =>
      obtain rfl := Option.some.inj hstep
      exact { hinv with }
    | got c => cases hstep
    | nothing => cases hstep
  | closer i =>
    obtain ⟨phase, hi, hstep⟩ := Option.bind_eq_some_iff.mp h
    exact hinv.closer hi hok hstep

/-! ### The flag is cleared in the end -/

/-- A bound of the steps that are left to a task. -/
def Refill.rank (t : Refill) : ℕ :=
  match t.phase with
  | .opening => 5
  | .opened _ => 4
  | .locking _ => 3
  | .closing _ => 2
  | .releasing => 1
  | .ended => 0

/-- Whether an event is a step of the `k`-th task. -/
def Event.moves (k : ℕ) : Event → Bool
  | .task i _ => k = i
  | _ => false

/-- Each of its steps brings a task nearer to its end. -/
theorem taskStep_rank {move : RefillMove} (h : taskStep s i t t.phase move = some s') :
    ∃ t', s'.tasks = s.tasks.set i t' ∧ t'.rank < t.rank := by
  unfold taskStep at h
  split at h
  case h_3 c hphase =>
    obtain rfl := Option.some.inj h
    refine ⟨_, rfl, ?_⟩
    split_ifs <;> simp [Refill.rank, hphase]
  case h_4 c hphase =>
    split at h
    · cases h
    · obtain rfl := Option.some.inj h
      split
      · exact ⟨_, rfl, by simp [Refill.rank, hphase]⟩
      · exact ⟨_, rfl, by simp [Refill.rank, hphase]⟩
  case h_7 hphase | h_8 c hphase | h_9 c hphase =>
    split at h
    · obtain rfl := Option.some.inj h
      exact ⟨_, rfl, by simp [Refill.rank, hphase]⟩
    · cases h
  case h_10 => cases h
  all_goals
    obtain rfl := Option.some.inj h
    exact ⟨_, rfl, by simp [Refill.rank, *]⟩

/-- A task keeps its rank when another one, or a call, takes a step. -/
theorem rank_of_abort {p k : ℕ} (ht : s.tasks[k]? = some t) :
    ∃ t', (s.abort p).tasks[k]? = some t' ∧ t'.rank = t.rank := by
  rw [State.abort, List.getElem?_modify, ht]
  refine ⟨_, rfl, ?_⟩
  split_ifs
  · rfl
  · rfl

/-- `take` leaves the tasks and the calls of `close`. -/
theorem takerStep_spec {fresh : Bool} {phase : Taker} (h : takerStep s i fresh phase = some s') :
    s'.tasks = s.tasks ∧ s'.closers = s.closers := by
  cases phase with
  | taking =>
    rw [takerStep] at h
    split at h
    · cases h
    · obtain rfl := Option.some.inj h
      split
      · exact ⟨rfl, rfl⟩
      · exact ⟨rfl, rfl⟩
  | expired c =>
    obtain rfl := Option.some.inj h
    exact ⟨rfl, rfl⟩
  | got c => cases h
  | nothing => cases h

/-- `schedule_refill` leaves the calls of `close`. -/
theorem schedulerStep_closers {phase : Scheduler}
    (h : schedulerStep s i phase = some s') : s'.closers = s.closers := by
  cases phase with
  | checking =>
    obtain rfl := Option.some.inj h
    rfl
  | claiming =>
    obtain rfl := Option.some.inj h
    split_ifs
    · rfl
    · rfl
  | spawning =>
    obtain rfl := Option.some.inj h
    rfl
  | storing k =>
    obtain rfl := Option.some.inj h
    dsimp only
    split_ifs
    · rfl
    · split
      · split_ifs
        · rfl
        · rfl
      · rfl
  | done => cases h

/-- A step of `close` changes its own call. -/
theorem closerStep_closers {phase : Closer}
    (h : closerStep s i phase = some s') : ∃ next, s'.closers = s.closers.set i next := by
  cases phase with
  | slotting =>
    obtain rfl := Option.some.inj h
    split
    · exact ⟨_, rfl⟩
    · exact ⟨_, rfl⟩
  | joining k =>
    rw [closerStep] at h
    split at h
    · obtain rfl := Option.some.inj h
      exact ⟨_, rfl⟩
    · cases h
  | emptying =>
    rw [closerStep] at h
    split at h
    · cases h
    · obtain rfl := Option.some.inj h
      split
      · exact ⟨_, rfl⟩
      · exact ⟨_, rfl⟩
  | returned => cases h
  | _ =>
    obtain rfl := Option.some.inj h
    exact ⟨_, rfl⟩

/-- A step leaves the rank of a task, or is a step of it that brings it nearer to its end. -/
theorem step_rank {k : ℕ} (ht : s.tasks[k]? = some t) (h : step s event = some s') :
    ∃ t', s'.tasks[k]? = some t' ∧ t'.rank + (if event.moves k then 1 else 0) ≤ t.rank := by
  have hsame : event.moves k = false → (∃ t', s'.tasks[k]? = some t' ∧ t'.rank = t.rank) →
      ∃ t', s'.tasks[k]? = some t' ∧ t'.rank + (if event.moves k then 1 else 0) ≤ t.rank := by
    rintro hmoves ⟨t', ht', hrank⟩
    rw [hmoves]
    exact ⟨t', ht', Nat.le_of_eq hrank⟩
  cases event with
  | schedule | take | close =>
    obtain rfl := Option.some.inj h
    exact hsame rfl ⟨t, ht, rfl⟩
  | scheduler i =>
    obtain ⟨phase, -, hstep⟩ := Option.bind_eq_some_iff.mp h
    refine hsame rfl ?_
    cases phase with
    | checking =>
      obtain rfl := Option.some.inj hstep
      exact ⟨t, ht, rfl⟩
    | claiming =>
      obtain rfl := Option.some.inj hstep
      split_ifs
      · exact ⟨t, ht, rfl⟩
      · exact ⟨t, ht, rfl⟩
    | spawning =>
      obtain rfl := Option.some.inj hstep
      exact ⟨t, Pool.getElem?_add_left ht, rfl⟩
    | storing p =>
      obtain rfl := Option.some.inj hstep
      dsimp only
      split_ifs
      · exact rank_of_abort ht
      · split
        · split_ifs
          · exact ⟨t, ht, rfl⟩
          · exact rank_of_abort ht
        · exact ⟨t, ht, rfl⟩
    | done => cases hstep
  | task i move =>
    obtain ⟨u, hu, hstep⟩ := Option.bind_eq_some_iff.mp h
    obtain ⟨u', htasks, hrank⟩ := taskStep_rank hstep
    by_cases hki : k = i
    · subst hki
      obtain rfl := Option.some.inj (ht.symm.trans hu)
      refine ⟨u', ?_, ?_⟩
      · rw [htasks]
        exact Pool.getElem?_set_self ht
      · split_ifs <;> omega
    · refine hsame (by simpa [Event.moves] using hki) ⟨t, ?_, rfl⟩
      rw [htasks, List.getElem?_set_ne (fun h => hki h.symm)]
      exact ht
  | taker i fresh =>
    obtain ⟨phase, -, hstep⟩ := Option.bind_eq_some_iff.mp h
    refine hsame rfl ⟨t, ?_, rfl⟩
    rw [(takerStep_spec hstep).1]
    exact ht
  | closer i =>
    obtain ⟨phase, -, hstep⟩ := Option.bind_eq_some_iff.mp h
    refine hsame rfl ?_
    cases phase with
    | slotting =>
      obtain rfl := Option.some.inj hstep
      split
      · exact ⟨t, ht, rfl⟩
      · exact rank_of_abort ht
    | joining p =>
      rw [closerStep] at hstep
      split at hstep
      · obtain rfl := Option.some.inj hstep
        exact ⟨t, ht, rfl⟩
      · cases hstep
    | emptying =>
      rw [closerStep] at hstep
      split at hstep
      · cases hstep
      · obtain rfl := Option.some.inj hstep
        split
        · exact ⟨t, ht, rfl⟩
        · exact ⟨t, ht, rfl⟩
    | returned => cases hstep
    | _ =>
      obtain rfl := Option.some.inj hstep
      exact ⟨t, ht, rfl⟩

/-- **A task ends**: the rest of a run has at most its rank of its steps. -/
theorem runFrom_rank {events : List Event} {k : ℕ}
    (ht : s.tasks[k]? = some t) (h : pool.runFrom s events = some s') :
    ∃ t', s'.tasks[k]? = some t' ∧ t'.rank + events.countP (Event.moves k) ≤ t.rank := by
  induction events generalizing s t with
  | nil =>
    obtain rfl := Option.some.inj h
    exact ⟨t, ht, Nat.le_refl _⟩
  | cons event events ih =>
    obtain ⟨m, hm, hrest⟩ := pool.runFrom_cons_eq_some h
    obtain ⟨u, hu, hstep⟩ := step_rank ht hm
    obtain ⟨t', ht', hrank⟩ := ih hu hrest
    refine ⟨t', ht', ?_⟩
    rw [List.countP_cons]
    omega

/-- In a pool that is open, a task that has not ended can go on. -/
theorem Inv.can_step {k : ℕ} (hinv : Inv s) (hopen : s.closed = false)
    (ht : s.tasks[k]? = some t) (hrunning : t.phase ≠ .ended) :
    ∃ move, (ExecPool.step s (.task k move)).isSome = true := by
  have hunlocked : ¬ s.locked = true := by
    intro hlocked
    obtain ⟨c, hc, hchannel⟩ := List.any_eq_true.mp hlocked
    have hclosed := hinv.closed c hc (by rintro rfl; cases hchannel)
    rw [hopen] at hclosed
    cases hclosed
  have hstep : ∀ move, ExecPool.step s (.task k move) = taskStep s k t t.phase move := by
    intro move
    rw [ExecPool.step, ht, Option.bind_some]
  cases hphase : t.phase with
  | opening => exact ⟨.openFails, by rw [hstep, hphase]; rfl⟩
  | opened c => exact ⟨.next, by rw [hstep, hphase]; rfl⟩
  | locking c =>
    refine ⟨.next, ?_⟩
    rw [hstep, hphase, taskStep, if_neg hunlocked]
    rfl
  | closing c => exact ⟨.next, by rw [hstep, hphase]; rfl⟩
  | releasing => exact ⟨.next, by rw [hstep, hphase]; rfl⟩
  | ended => exact absurd hphase hrunning

/-! ### Runs -/

/-- While the pool is open, the flag is set only for a call that is about to spawn its task, or for
a task that will clear it: no abort stops it, it can go on, and a run has only so many of its
steps. -/
def FlagHeld (s : State) : Prop :=
  s.closed = false → s.refilling = true →
    Scheduler.spawning ∈ s.schedulers ∨
    ∃ (k : ℕ) (t : Refill), s.tasks[k]? = some t ∧ t.phase ≠ .ended ∧
      (t.aborted = true → t.phase = .releasing) ∧
      (∃ move, (step s (.task k move)).isSome = true) ∧
      ∀ later s', pool.runFrom s later = some s' →
        ∃ t', s'.tasks[k]? = some t' ∧ t'.rank + later.countP (Event.moves k) ≤ t.rank

theorem Inv.flagHeld (hinv : Inv s) : FlagHeld s := by
  intro hopen hrefilling
  have hflag := hinv.flag hopen
  rw [if_pos hrefilling, holders] at hflag
  by_cases hspawning : Scheduler.spawning ∈ s.schedulers
  · exact .inl hspawning
  · have hnone : s.schedulers.countP (fun phase => phase = .spawning) = 0 := by
      rw [List.countP_eq_zero]
      intro phase hphase heq
      rw [decide_eq_true_eq.mp heq] at hphase
      exact hspawning hphase
    have hsome : 0 < s.tasks.countP (fun t => t.phase ≠ .ended) := by omega
    obtain ⟨t, ht, hrunning⟩ := List.countP_pos_iff.mp hsome
    rw [decide_eq_true_eq] at hrunning
    obtain ⟨k, hk⟩ := List.mem_iff_getElem?.mp ht
    refine .inr ⟨k, t, hk, hrunning, fun haborted => ?_, hinv.can_step hopen hk hrunning,
      fun later s' hlater => runFrom_rank hk hlater⟩
    exact (hinv.aborted hopen t ht haborted).resolve_right hrunning

/-- A call of `close` that has returned stays so. -/
theorem returned_step (hreturned : Closer.returned ∈ s.closers)
    (h : step s event = some s') : Closer.returned ∈ s'.closers := by
  have hkeep : s'.closers = s.closers → Closer.returned ∈ s'.closers := fun heq => heq ▸ hreturned
  cases event with
  | schedule =>
    obtain rfl := Option.some.inj h
    exact hreturned
  | take =>
    obtain rfl := Option.some.inj h
    exact hreturned
  | close =>
    obtain rfl := Option.some.inj h
    exact List.mem_append_left _ hreturned
  | scheduler i =>
    obtain ⟨phase, -, hstep⟩ := Option.bind_eq_some_iff.mp h
    exact hkeep (schedulerStep_closers hstep)
  | task i move =>
    obtain ⟨t, -, hstep⟩ := Option.bind_eq_some_iff.mp h
    obtain ⟨t', hmoved⟩ := taskStep_spec hstep
    exact hkeep hmoved.closers
  | taker i fresh =>
    obtain ⟨phase, -, hstep⟩ := Option.bind_eq_some_iff.mp h
    exact hkeep (takerStep_spec hstep).2
  | closer i =>
    obtain ⟨phase, hi, hstep⟩ := Option.bind_eq_some_iff.mp h
    obtain ⟨next, hnext⟩ := closerStep_closers hstep
    rw [hnext]
    refine Pool.mem_set_of_ne hi hreturned ?_
    rintro rfl
    cases hstep

/-- Nothing is idle once `close` has returned, nor will anything be, in a run of orderly steps. -/
def StaysEmpty (s : State) : Prop :=
  Closer.returned ∈ s.closers → ∀ later s', pool.runFrom s later = some s' →
    pool.MeetsFrom Orderly s later → s'.idle = none

/-- Once `close` has returned the pool stays empty. -/
theorem Inv.staysEmpty (hinv : Inv s) : StaysEmpty s := by
  intro hreturned later s' hrun hok
  have hend : Inv s' ∧ Closer.returned ∈ s'.closers := by
    refine Machine.runFrom_invariant_of
      (I := fun s => Inv s ∧ Closer.returned ∈ s.closers) ?_ ⟨hinv, hreturned⟩ hok hrun
    rintro s event s' ⟨hinv, hreturned⟩ hok hstep
    exact ⟨Inv.step hinv hok hstep, returned_step hreturned hstep⟩
  exact hend.1.emptied _ hend.2 trivial

/-- **The warm channel pool, in every run of orderly steps**: every channel that was opened is in
exactly one place, the flag is held while the pool is open by one that will clear it, and nothing is
idle once `close` has returned. -/
theorem pool_sound (events : List Event) (s : State) (hrun : pool.run events = some s)
    (hok : pool.Meets Orderly events) :
    (∀ channel < s.opened, owners s channel = 1) ∧ FlagHeld s ∧ StaysEmpty s := by
  have howned : Owned s := by
    refine Machine.run_invariant (I := Owned) ?_ (fun s event s' howned hstep => ?_) hrun
    · exact fun channel => ⟨fun h => absurd h (Nat.not_lt_zero _), fun _ => rfl⟩
    · exact Owned.step howned hstep
  have hinv : Inv s := by
    refine Machine.run_invariant_of (I := Inv) ?_ (fun s event s' hinv hok hstep => ?_) hok hrun
    · exact ⟨nofun, fun _ => rfl, nofun, nofun, nofun, nofun⟩
    · exact Inv.step hinv hok hstep
  exact ⟨fun channel hlt => (howned channel).1 hlt, hinv.flagHeld, hinv.staysEmpty⟩

/-- A channel is opened, found idle by `close`, and closed. -/
theorem pool_sound_closed : ∃ s,
    pool.run [.schedule, .scheduler 0, .scheduler 0, .scheduler 0, .scheduler 0, .task 0 .openOk,
      .task 0 .next, .task 0 .next, .task 0 .next, .close, .closer 0, .closer 0, .closer 0,
      .closer 0, .closer 0, .closer 0] = some s ∧ owners s 0 = 1 := by
  refine (Option.isSome_iff_exists.mp (by decide)).imp fun s hs => ⟨hs, ?_⟩
  obtain rfl := Option.some.inj (show some _ = some s from hs)
  exact (pool_sound _ _ hs (by decide)).1 0 (by decide)

/-- **A channel can be idle after `close`**: the task has found the pool open, and its handle is not
yet in the slot when `close` takes that. -/
theorem idle_after_close : ¬ ∀ events s, pool.run events = some s →
    FlagHeld s ∧ (Closer.returned ∈ s.closers → s.idle = none) := by
  intro h
  have hrun : ∃ s,
      pool.run [.schedule, .scheduler 0, .scheduler 0, .scheduler 0, .task 0 .openOk,
        .task 0 .next, .close, .closer 0, .closer 0, .closer 0, .closer 0, .task 0 .next] =
        some s ∧ Closer.returned ∈ s.closers ∧ s.idle = some 0 :=
    ⟨_, rfl, by decide, rfl⟩
  obtain ⟨s, hs, hreturned, hidle⟩ := hrun
  have hnone := (h _ s hs).2 hreturned
  rw [hidle] at hnone
  cases hnone

end ExecPool
end Remote
end HelmSsh
