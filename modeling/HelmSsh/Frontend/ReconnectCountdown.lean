/-
# The countdown to a reconnect

`ReconnectCountdown` of `src/app/sessionConnectionState.ts`, in milliseconds of a clock that does
not go back.  A timer fires when it is due or later, and not when it was cleared.  The callbacks are
logged with the time of their call; what they do is left out.

* `countdown_faithful` — what it calls, and when.
-/

import HelmSsh.Machine
import Mathlib.Data.List.Pairwise
import Mathlib.Order.Nat

namespace HelmSsh
namespace Frontend
namespace ReconnectCountdown

/-- A call of a callback, and when. -/
inductive Call
  | tick (remainingSeconds now : ℕ)
  | elapsed (now : ℕ)
  deriving DecidableEq

/-- The object and its scheduler. -/
structure State where
  now : ℕ
  /-- When the pending timer is due. -/
  timer : Option ℕ
  lastRemainingSeconds : Option ℕ
  started : Bool
  stopped : Bool
  calls : List Call
  deriving DecidableEq

/-- What happens. -/
inductive Event
  | pass (time : ℕ)
  | start
  | cancel
  | fire
  deriving DecidableEq

/-- The whole seconds that `refresh` shows, rounded up. -/
def seconds (remainingMs : ℕ) : ℕ :=
  max 1 ((remainingMs + 999) / 1000)

/-- `refresh`. -/
def State.refresh (deadline : ℕ) (s : State) : State :=
  if s.stopped then s
  else if deadline ≤ s.now then
    { s with stopped := true, timer := none, calls := s.calls ++ [.elapsed s.now] }
  else
    let remainingSeconds := seconds (deadline - s.now)
    { s with
      calls := if s.lastRemainingSeconds = some remainingSeconds then s.calls
        else s.calls ++ [.tick remainingSeconds s.now]
      lastRemainingSeconds := some remainingSeconds
      timer := some (s.now + max 1 (deadline - s.now - (remainingSeconds - 1) * 1000)) }

/-- The steps. -/
def State.step (deadline : ℕ) (s : State) : Event → Option State
  | .pass time => some { s with now := s.now + time }
  | .start =>
    some (if s.started || s.stopped then s else { s with started := true }.refresh deadline)
  | .cancel => some (if s.stopped then s else { s with stopped := true, timer := none })
  | .fire =>
    if s.timer.any (· ≤ s.now) then some ({ s with timer := none }.refresh deadline) else none

/-- A countdown that is constructed. -/
def countdown (now delayMs : ℕ) : Machine State Event where
  init := ⟨now, none, none, false, false, []⟩
  step := State.step (now + delayMs)

/-- The call is right for its time. -/
def Call.Right (deadline : ℕ) : Call → Prop
  | .tick sec now =>
    now < deadline ∧ (sec - 1) * 1000 < deadline - now ∧ deadline - now ≤ sec * 1000
  | .elapsed now => deadline ≤ now

/-- The first call is a tick, and the second the end or a tick of fewer seconds. -/
def Call.Follows : Call → Call → Prop
  | .tick sec _, .tick sec' _ => sec' < sec
  | .tick _ _, .elapsed _ => True
  | .elapsed _, _ => False

/-- **The invariant of the countdown**: while it runs, a timer is set for the next second, and more
seconds were shown so far. -/
structure State.Inv (deadline : ℕ) (s : State) : Prop where
  right : ∀ call ∈ s.calls, call.Right deadline
  order : s.calls.Pairwise Call.Follows
  idle : s.started = false → s.calls = [] ∧ s.lastRemainingSeconds = none ∧ s.timer = none
  running : s.started = true → s.stopped = false → ∃ sec due, s.lastRemainingSeconds = some sec ∧
    s.timer = some due ∧ 1 ≤ sec ∧ due + (sec - 1) * 1000 = deadline ∧
    ∀ call ∈ s.calls, ∃ sec' now, call = .tick sec' now ∧ sec ≤ sec'
  stopped : s.stopped = true → s.timer = none

variable {deadline : ℕ} {s s' : State}

theorem seconds_spec {remainingMs : ℕ} (h : 0 < remainingMs) :
    1 ≤ seconds remainingMs ∧ (seconds remainingMs - 1) * 1000 < remainingMs ∧
      remainingMs ≤ seconds remainingMs * 1000 := by
  unfold seconds
  omega

/-- **A refresh**, when all calls so far were ticks of more time than is left. -/
theorem State.Inv.refresh (hright : ∀ call ∈ s.calls, call.Right deadline)
    (horder : s.calls.Pairwise Call.Follows) (hstarted : s.started = true)
    (hstopped : s.stopped = false)
    (hlast : ∀ sec, s.lastRemainingSeconds = some sec → deadline - s.now ≤ (sec - 1) * 1000)
    (hmore : ∀ call ∈ s.calls, ∃ sec now, call = .tick sec now ∧
      deadline - s.now ≤ (sec - 1) * 1000) : (s.refresh deadline).Inv deadline := by
  unfold State.refresh
  rw [hstopped, if_neg Bool.false_ne_true]
  split_ifs with hlate
  · refine ⟨List.forall_mem_append.mpr ⟨hright, List.forall_mem_singleton.mpr hlate⟩,
      List.pairwise_append.mpr ⟨horder, List.pairwise_singleton .., fun call hcall _ hlast => ?_⟩,
      fun hidle => absurd (hstarted.symm.trans hidle) Bool.false_ne_true.symm, fun _ hrunning =>
        (by cases hrunning), fun _ => rfl⟩
    obtain ⟨sec, now, rfl, -⟩ := hmore call hcall
    obtain rfl := List.mem_singleton.mp hlast
    trivial
  · obtain ⟨hone, hlt, hle⟩ := seconds_spec (Nat.sub_pos_of_lt (Nat.lt_of_not_le hlate))
    have hnew : s.lastRemainingSeconds ≠ some (seconds (deadline - s.now)) := fun heq =>
      absurd (hlast _ heq) (Nat.not_le_of_lt hlt)
    dsimp only
    rw [if_neg hnew]
    generalize seconds (deadline - s.now) = left at hone hlt hle ⊢
    refine ⟨List.forall_mem_append.mpr ⟨hright, List.forall_mem_singleton.mpr ?_⟩,
      List.pairwise_append.mpr ⟨horder, List.pairwise_singleton .., fun call hcall _ hlast => ?_⟩,
      fun hidle => absurd (hstarted.symm.trans hidle) Bool.false_ne_true.symm,
      fun _ _ => ⟨_, _, rfl, rfl, hone, ?_, List.forall_mem_append.mpr
        ⟨fun call hcall => ?_, List.forall_mem_singleton.mpr ⟨_, _, rfl, le_rfl⟩⟩⟩,
      fun hstop => (by cases hstop)⟩
    · exact ⟨Nat.lt_of_not_le hlate, hlt, hle⟩
    · obtain ⟨sec, now, rfl, hsec⟩ := hmore call hcall
      obtain rfl := List.mem_singleton.mp hlast
      change left < sec
      omega
    · omega
    · obtain ⟨sec, now, rfl, hsec⟩ := hmore call hcall
      exact ⟨sec, now, rfl, by omega⟩

/-- **What a step preserves.** -/
theorem State.Inv.step (h : s.Inv deadline) {event : Event}
    (hstep : s.step deadline event = some s') : s'.Inv deadline := by
  cases event with
  | pass time =>
    obtain rfl := Option.some.inj hstep
    exact ⟨h.right, h.order, h.idle, h.running, h.stopped⟩
  | start =>
    obtain rfl := Option.some.inj hstep
    split_ifs with hstarted
    · exact h
    · obtain ⟨hidle, hrunning⟩ := Bool.or_eq_false_iff.mp (Bool.not_eq_true _ ▸ hstarted)
      obtain ⟨hcalls, hlast, -⟩ := h.idle hidle
      refine State.Inv.refresh h.right h.order rfl hrunning (fun sec heq => ?_) fun call hcall => ?_
      · exact absurd (hlast.symm.trans heq) (Option.some_ne_none sec).symm
      · exact absurd (hcalls ▸ hcall) List.not_mem_nil
  | cancel =>
    obtain rfl := Option.some.inj hstep
    split_ifs
    · exact h
    · exact ⟨h.right, h.order, fun hidle => ⟨(h.idle hidle).1, (h.idle hidle).2.1, rfl⟩,
        fun _ hrunning => (by cases hrunning), fun _ => rfl⟩
  | fire =>
    obtain ⟨hdue, rfl⟩ := Option.ite_some_none_eq_some.mp hstep
    obtain ⟨due, htimer, hdue⟩ := (Option.any_eq_true _ _).mp hdue
    have hsome : s.timer ≠ none := fun hnone => by rw [htimer] at hnone; cases hnone
    have hstarted : s.started = true := by
      by_contra hidle
      exact hsome (h.idle (Bool.not_eq_true _ ▸ hidle)).2.2
    have hstopped : s.stopped = false := by
      by_contra hstop
      exact hsome (h.stopped (Bool.not_eq_false _ ▸ hstop))
    obtain ⟨sec, due', hlast, htimer', hone, hdeadline, hcalls⟩ := h.running hstarted hstopped
    obtain rfl := Option.some.inj (htimer.symm.trans htimer')
    have hdue : due ≤ s.now := of_decide_eq_true hdue
    refine State.Inv.refresh h.right h.order hstarted hstopped (fun sec' heq => ?_)
      fun call hcall => ?_
    · obtain rfl := Option.some.inj (hlast.symm.trans heq)
      dsimp only
      omega
    · obtain ⟨sec', now, rfl, hle⟩ := hcalls call hcall
      exact ⟨sec', now, rfl, by dsimp only; omega⟩

/-- **The countdown is faithful.**  In every run, the ticks go down second by second, and each shows
the time that is left, rounded up; the end comes once, at the deadline or later, and nothing after
it; while the countdown runs, a timer is set that is due by the deadline; and once it has stopped,
by its end or by `cancel`, nothing is called any more. -/
theorem countdown_faithful {now delayMs : ℕ} {events : List Event}
    (h : (countdown now delayMs).run events = some s) :
    (∀ call ∈ s.calls, call.Right (now + delayMs)) ∧ s.calls.Pairwise Call.Follows ∧
      (s.started = true → s.stopped = false → ∃ due, s.timer = some due ∧ due ≤ now + delayMs) ∧
      (s.stopped = true → ∀ later s', (countdown now delayMs).runFrom s later = some s' →
        s'.calls = s.calls) := by
  have hinv : s.Inv (now + delayMs) := Machine.run_invariant (M := countdown now delayMs)
    ⟨fun _ hcall => absurd hcall List.not_mem_nil, List.Pairwise.nil, fun _ => ⟨rfl, rfl, rfl⟩,
      fun hstarted => (by cases hstarted), fun _ => rfl⟩ (fun _ _ _ hinv hstep => hinv.step hstep) h
  refine ⟨hinv.right, hinv.order, fun hstarted hrunning => ?_, fun hstopped later s' hrun => ?_⟩
  · obtain ⟨sec, due, -, htimer, -, hdeadline, -⟩ := hinv.running hstarted hrunning
    exact ⟨due, htimer, by omega⟩
  · have hkept := Machine.runFrom_invariant (M := countdown now delayMs)
      (I := fun m => m.stopped = true ∧ m.timer = none ∧ m.calls = s.calls)
      (fun m event m' ⟨hstop, htimer, hcalls⟩ hstep => ?_)
        ⟨hstopped, hinv.stopped hstopped, rfl⟩ hrun
    · exact hkept.2.2
    · cases event with
      | pass time =>
        obtain rfl := Option.some.inj hstep
        exact ⟨hstop, htimer, hcalls⟩
      | start =>
        obtain rfl := Option.some.inj hstep
        rw [hstop, Bool.or_true, if_pos rfl]
        exact ⟨hstop, htimer, hcalls⟩
      | cancel =>
        obtain rfl := Option.some.inj hstep
        rw [if_pos hstop]
        exact ⟨hstop, htimer, hcalls⟩
      | fire =>
        obtain ⟨hdue, -⟩ := Option.ite_some_none_eq_some.mp hstep
        rw [htimer] at hdue
        cases hdue

/-- Two seconds, and a timer that is late. -/
theorem countdown_faithful_late :
    [Call.tick 2 0, .tick 1 1000, .elapsed 3000].Pairwise Call.Follows := by
  have hrun : (countdown 0 2000).run [.start, .pass 1000, .fire, .pass 2000, .fire]
      = some ⟨3000, none, some 1, true, true,
        [.tick 2 0, .tick 1 1000, .elapsed 3000]⟩ := by decide +kernel
  exact (countdown_faithful hrun).2.1

end ReconnectCountdown
end Frontend
end HelmSsh
