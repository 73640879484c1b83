/-
# Flow control of a terminal

`TerminalFlowControl` (`src-tauri/src/remote/terminal_stream.rs`) bounds the
output bytes of one terminal that the front end has not consumed.  `send_frame`
takes one permit per payload byte from a semaphore of `TERMINAL_IN_FLIGHT_BYTES`,
adds the bytes to `sent`, forgets the permits and hands the frame to the
channel.  `acknowledge` refuses a count above `sent`, raises `acknowledged` with
`fetch_max` and returns the difference to the semaphore.  The other end is
`TerminalConsumption` (`src/lib/terminalFrame.ts`), which adds up the bytes of
the frames that the terminal view has consumed and reports the running total.

The machine here has one event per atomic operation, so its runs are all the
interleavings of any number of senders and acknowledgements, of the delivery of
frames and of the client's timer:

* a waiting `acquire_many` may be handed its permits in pieces and may be dropped
  while it waits;
* an acknowledgement is a check against `sent`, a later `fetch_max`, and a still
  later `add_permits`; any value can be acknowledged at any time;
* the client's own acknowledgements arrive in any order.

Each step is a move of the ledger of `HelmSsh.CreditLedger` (`step_reach`), which
gives the conservation law: permits, bytes in flight, permits held by a sender
and credit between `fetch_max` and `add_permits` add up to the window.  The
client's totals never exceed `sent` (`Inv`), so none of them is refused.

`sent` is an `AtomicU64` and starts again at 0 after 2^64 bytes.  The law holds of the
runs in which it does not (`NoWrap`); where it does, credit is lost for good
(`credit_lost_by_wrap`).  The client counts in JS numbers, which the natural numbers here
follow up to 2^53.
-/

import Mathlib.Algebra.GroupWithZero.Nat
import HelmSsh.Machine
import HelmSsh.CreditLedger
import HelmSsh.Errors
import Mathlib.Algebra.BigOperators.Group.List.Basic
import Mathlib.Order.Nat

namespace HelmSsh
namespace Terminal

/-- `TERMINAL_IN_FLIGHT_BYTES`: the window. -/
def terminalInFlightBytes : ℕ := 1024 * 1024

/-- `TERMINAL_FRAME_BYTES`: the longest payload of one frame. -/
def terminalFrameBytes : ℕ := 64 * 1024

/-! ### The back end's counters -/

/-- The number of values of a `u64`. -/
def u64Size : ℕ := 2 ^ 64

/-- `Number.MAX_SAFE_INTEGER` and one: up to here the client counts each byte. -/
def maxExact : ℕ := 2 ^ 53

/-- `TerminalFlowControl`: the semaphore's permits and whether it is closed, and
the two byte counters. -/
structure FlowControl where
  slots : ℕ
  closed : Bool
  sent : ℕ
  acknowledged : ℕ
  deriving DecidableEq

namespace FlowControl

/-- `TerminalFlowControl::default`. -/
def default : FlowControl :=
  { slots := terminalInFlightBytes, closed := false, sent := 0, acknowledged := 0 }

/-- The first operation of `acknowledge`: load `sent` and refuse a larger count. -/
def checkConsumed (f : FlowControl) (consumed : ℕ) : AppResult Unit :=
  if consumed > f.sent then .error (.invalidInput "终端消费确认超出已发送数据") else .ok ()

/-- `acknowledged.fetch_max(consumed)` and the value it returns. -/
def fetchMax (f : FlowControl) (consumed : ℕ) : FlowControl × ℕ :=
  ({ f with acknowledged := max f.acknowledged consumed }, f.acknowledged)

/-- `slots.add_permits(n)`. -/
def addPermits (f : FlowControl) (n : ℕ) : FlowControl :=
  { f with slots := f.slots + n }

/-- `TerminalFlowControl::acknowledge`, run without interruption. -/
def acknowledge (f : FlowControl) (consumed : ℕ) : AppResult FlowControl := do
  f.checkConsumed consumed
  let (f, previous) := f.fetchMax consumed
  return if consumed > previous then f.addPermits (consumed - previous) else f

/-- The length check at the head of `send_frame`. -/
def checkFrame (frameLen : ℕ) : AppResult Unit :=
  if frameLen ≤ 1 ∨ frameLen > terminalFrameBytes + 1 then
    .error (.invalidInput "终端帧长度无效")
  else .ok ()

/-- A count is accepted exactly when it does not exceed `sent`. -/
theorem checkConsumed_ok {f : FlowControl} {consumed : ℕ} :
    f.checkConsumed consumed = .ok () ↔ consumed ≤ f.sent := by
  unfold checkConsumed
  split_ifs with h
  · simp only [false_iff]
    omega
  · simp only [true_iff]
    omega

/-- An uninterrupted `acknowledge` returns an error exactly when the check does. -/
theorem acknowledge_ok {f : FlowControl} {consumed : ℕ} :
    (∃ f', f.acknowledge consumed = .ok f') ↔ consumed ≤ f.sent := by
  rw [← checkConsumed_ok]
  unfold acknowledge
  cases hc : f.checkConsumed consumed with
  | error e => simp [bind, Except.bind]
  | ok u => simp [bind, Except.bind, pure, Except.pure]

theorem acknowledge_stale {f : FlowControl} {consumed : ℕ} (hack : f.acknowledged ≤ f.sent)
    (h : consumed ≤ f.acknowledged) : f.acknowledge consumed = .ok f := by
  have hc : f.checkConsumed consumed = .ok () := checkConsumed_ok.mpr (h.trans hack)
  have hmax : max f.acknowledged consumed = f.acknowledged := max_eq_left h
  simp only [acknowledge, hc, fetchMax, hmax, bind, Except.bind, pure, Except.pure]
  rw [if_neg (by omega)]

end FlowControl

/-! ### The front end's totals -/

/-- `TerminalConsumption`: bytes consumed, bytes reported, whether the 8 ms timer
is set, and whether the stream was closed. -/
structure Consumption where
  consumed : ℕ
  acknowledged : ℕ
  timer : Bool
  closed : Bool
  deriving DecidableEq

namespace Consumption

/-- A new `TerminalConsumption`. -/
def new : Consumption :=
  { consumed := 0, acknowledged := 0, timer := false, closed := false }

/-- `flush`, with the count it sends. -/
def flush (c : Consumption) : Consumption × Option ℕ :=
  if c.closed ∨ c.consumed = c.acknowledged then ({ c with timer := false }, none)
  else ({ c with timer := false, acknowledged := c.consumed }, some c.consumed)

/-- `consume(bytes)`, with the count it sends. -/
def consume (c : Consumption) (bytes : ℕ) : Consumption × Option ℕ :=
  if c.closed then (c, none)
  else if c.consumed + bytes - c.acknowledged ≥ 64 * 1024 then
    flush { c with consumed := c.consumed + bytes }
  else ({ c with consumed := c.consumed + bytes, timer := true }, none)

/-- `close`. -/
def close (c : Consumption) : Consumption :=
  { c with closed := true, timer := false }

theorem flush_spec (c : Consumption) :
    c.flush.1.consumed = c.consumed ∧ ∀ n ∈ c.flush.2, n = c.consumed := by
  unfold flush
  split_ifs <;> simp

/-- `consume` adds at most `bytes` to the running total and sends nothing else. -/
theorem consume_spec (c : Consumption) (bytes : ℕ) :
    c.consumed ≤ (c.consume bytes).1.consumed ∧
      (c.consume bytes).1.consumed ≤ c.consumed + bytes ∧
      ∀ n ∈ (c.consume bytes).2, n = (c.consume bytes).1.consumed := by
  unfold consume
  split_ifs with hclosed hfull
  · simp
  · obtain ⟨htotal, hsend⟩ := flush_spec { c with consumed := c.consumed + bytes }
    refine ⟨by rw [htotal]; simp, by simp [htotal], fun n hn => ?_⟩
    rw [hsend n hn, htotal]
  · simp

end Consumption

/-! ### Senders, acknowledgements and the channel, interleaved -/

/-- A `send_frame` call in `acquire_many`: its payload bytes and the permits it
was assigned so far. -/
structure Acquire where
  payloadBytes : ℕ
  assigned : ℕ
  deriving DecidableEq

/-- The whole stream of one terminal.  The lists hold the calls in progress, by
how far each has come. -/
structure FlowState where
  flow : FlowControl
  /-- Calls waiting for permits. -/
  waiting : List Acquire
  /-- Calls that own all their permits and have not counted them. -/
  acquired : List ℕ
  /-- Calls that counted their bytes and have not used the channel. -/
  counted : List ℕ
  /-- `acknowledge` calls past the check against `sent`. -/
  checked : List ℕ
  /-- `acknowledge` calls that owe the semaphore this many permits. -/
  releasing : List ℕ
  /-- Payload bytes of the frames in the channel, oldest first. -/
  channel : List ℕ
  /-- Frames given to the terminal view and not consumed. -/
  outstanding : List ℕ
  client : Consumption
  /-- `terminal_ack` calls of the client on their way. -/
  acks : List ℕ
  deriving DecidableEq

/-- One atomic operation of a sender, an acknowledgement, the channel or the
client. -/
inductive FlowEvent where
  | sendFrame (frameLen : ℕ)
  | assignPermits (call : Acquire) (k : ℕ)
  | acquireDone (payloadBytes : ℕ)
  | acquireGivenUp (call : Acquire)
  | countSent (payloadBytes : ℕ)
  | channelSend (payloadBytes : ℕ)
  | channelSendFails (payloadBytes : ℕ)
  | closeSemaphore
  | acknowledge (consumed : ℕ)
  | clientAck (consumed : ℕ)
  | fetchMax (consumed : ℕ)
  | addPermits (n : ℕ)
  | deliver
  | viewConsumes (payloadBytes : ℕ)
  | clientTimer
  | clientClose
  deriving DecidableEq

namespace FlowState

/-- A terminal whose record was just created. -/
def init : FlowState :=
  { flow := .default, waiting := [], acquired := [], counted := [], checked := [],
    releasing := [], channel := [], outstanding := [], client := .new, acks := [] }

/-- An `acknowledge` call runs its check; a refused one is over. -/
def beginAcknowledge (s : FlowState) (consumed : ℕ) : FlowState :=
  match s.flow.checkConsumed consumed with
  | .error _ => s
  | .ok _ => { s with checked := consumed :: s.checked }

/-- The client's callback put its running total on the way, if it sent one. -/
def withClient (s : FlowState) (r : Consumption × Option ℕ) : FlowState :=
  { s with client := r.1, acks := r.2.toList ++ s.acks }

/-- The `add_permits` call that an acknowledgement still has to make after its
`fetch_max` returned `previous`. -/
def owedPermits (consumed previous : ℕ) : List ℕ :=
  if consumed > previous then [consumed - previous] else []

/-- The effect of one operation. -/
def step (s : FlowState) : FlowEvent → Option FlowState
  | .sendFrame frameLen =>
    match FlowControl.checkFrame frameLen with
    | .error _ => some s
    | .ok _ => some { s with waiting := ⟨frameLen - 1, 0⟩ :: s.waiting }
  | .assignPermits call k =>
    if call ∈ s.waiting ∧ s.flow.closed = false ∧ call.assigned + k ≤ call.payloadBytes ∧
        k ≤ s.flow.slots then
      some { s with
        flow := { s.flow with slots := s.flow.slots - k }
        waiting := { call with assigned := call.assigned + k } :: s.waiting.erase call }
    else none
  | .acquireDone n =>
    if ⟨n, n⟩ ∈ s.waiting then
      some { s with waiting := s.waiting.erase ⟨n, n⟩, acquired := n :: s.acquired }
    else none
  | .acquireGivenUp call =>
    if call ∈ s.waiting then
      some { s with
        flow := s.flow.addPermits call.assigned
        waiting := s.waiting.erase call }
    else none
  | .countSent n =>
    if n ∈ s.acquired then
      some { s with
        flow := { s.flow with sent := (s.flow.sent + n) % u64Size }
        acquired := s.acquired.erase n
        counted := n :: s.counted }
    else none
  | .channelSend n =>
    if n ∈ s.counted then
      some { s with counted := s.counted.erase n, channel := s.channel ++ [n] }
    else none
  | .channelSendFails n =>
    if n ∈ s.counted then
      some { s with
        flow := { s.flow with closed := true }
        counted := s.counted.erase n }
    else none
  | .closeSemaphore => some { s with flow := { s.flow with closed := true } }
  | .acknowledge consumed => some (s.beginAcknowledge consumed)
  | .clientAck consumed =>
    if consumed ∈ s.acks then
      some ({ s with acks := s.acks.erase consumed }.beginAcknowledge consumed)
    else none
  | .fetchMax consumed =>
    if consumed ∈ s.checked then
      some { s with
        flow := (s.flow.fetchMax consumed).1
        checked := s.checked.erase consumed
        releasing := owedPermits consumed (s.flow.fetchMax consumed).2 ++ s.releasing }
    else none
  | .addPermits n =>
    if n ∈ s.releasing then
      some { s with flow := s.flow.addPermits n, releasing := s.releasing.erase n }
    else none
  | .deliver =>
    match s.channel with
    | [] => none
    | n :: channel =>
      if s.client.closed then some { s with channel := channel }
      else some { s with channel := channel, outstanding := n :: s.outstanding }
  | .viewConsumes n =>
    if n ∈ s.outstanding then
      some ({ s with outstanding := s.outstanding.erase n }.withClient (s.client.consume n))
    else none
  | .clientTimer => if s.client.timer then some (s.withClient s.client.flush) else none
  | .clientClose => some { s with client := s.client.close }

end FlowState

/-- The stream of one terminal. -/
def flowMachine : Machine FlowState FlowEvent where
  init := .init
  step := FlowState.step

namespace FlowState

/-- Permits that a sender holds and has not counted. -/
def held (s : FlowState) : ℕ :=
  (s.waiting.map Acquire.assigned).sum + s.acquired.sum

/-- The accounts of the window. -/
def ledger (s : FlowState) : CreditLedger where
  free := s.flow.slots
  held := s.held
  lent := s.flow.sent - s.flow.acknowledged
  owed := s.releasing.sum

/-- What every reachable stream satisfies. -/
structure Inv (s : FlowState) : Prop where
  /-- No more is acknowledged than was sent. -/
  acknowledged_le : s.flow.acknowledged ≤ s.flow.sent
  /-- A count past the check stays below `sent`. -/
  checked_le : ∀ c ∈ s.checked, c ≤ s.flow.sent
  /-- The client and the frames on their way to it make up at most `sent`. -/
  frames_le : s.client.consumed + s.outstanding.sum + s.channel.sum + s.counted.sum ≤ s.flow.sent
  /-- The client reports nothing it has not consumed. -/
  acks_le : ∀ c ∈ s.acks, c ≤ s.client.consumed

theorem inv_init : init.Inv := by
  constructor <;> simp [init, FlowControl.default, Consumption.new]

/-- The check keeps the invariant: it lets only counts up to `sent` through. -/
theorem Inv.beginAcknowledge {s : FlowState} (h : s.Inv) (consumed : ℕ) :
    (s.beginAcknowledge consumed).Inv := by
  unfold FlowState.beginAcknowledge
  cases hc : s.flow.checkConsumed consumed with
  | error e => exact h
  | ok u =>
    have hle : consumed ≤ s.flow.sent := FlowControl.checkConsumed_ok.mp hc
    refine ⟨h.acknowledged_le, fun c hmem => ?_, h.frames_le, h.acks_le⟩
    rcases List.mem_cons.mp hmem with rfl | hmem
    · exact hle
    · exact h.checked_le c hmem

theorem sum_erase_add {n : ℕ} {l : List ℕ} (h : n ∈ l) : (l.erase n).sum + n = l.sum := by
  rw [add_comm]
  exact List.sum_erase h

theorem sum_assigned_erase {call : Acquire} {l : List Acquire} (h : call ∈ l) :
    ((l.erase call).map Acquire.assigned).sum + call.assigned =
      (l.map Acquire.assigned).sum := by
  rw [add_comm]
  exact List.sum_map_erase Acquire.assigned h

/-- The bytes that are counted do not carry `sent` past its end. -/
def NoWrap (s : FlowState) : FlowEvent → Prop
  | .countSent n => s.flow.sent + n < u64Size
  | _ => True

instance (s : FlowState) (e : FlowEvent) : Decidable (s.NoWrap e) := by
  cases e <;> simp only [NoWrap] <;> infer_instance

/-- **One operation keeps the invariant.** -/
theorem Inv.step {s s' : FlowState} {e : FlowEvent} (h : s.Inv) (hok : s.NoWrap e)
    (hstep : s.step e = some s') : s'.Inv := by
  obtain ⟨hack, hchecked, hframes, hacks⟩ := h
  cases e with
  | sendFrame frameLen =>
    simp only [FlowState.step] at hstep
    cases hc : FlowControl.checkFrame frameLen <;> simp only [hc, Option.some.injEq] at hstep <;>
      subst hstep <;> exact ⟨hack, hchecked, hframes, hacks⟩
  | assignPermits call k | acquireDone n | acquireGivenUp call | addPermits n =>
    obtain ⟨-, rfl⟩ := Option.ite_some_none_eq_some.mp hstep
    exact ⟨hack, hchecked, hframes, hacks⟩
  | countSent n =>
    obtain ⟨-, rfl⟩ := Option.ite_some_none_eq_some.mp hstep
    rw [Nat.mod_eq_of_lt hok]
    refine ⟨hack.trans (Nat.le_add_right _ _), fun c hc => ?_, ?_, hacks⟩
    · exact (hchecked c hc).trans (Nat.le_add_right _ _)
    · simp only [List.sum_cons]
      omega
  | channelSend n =>
    obtain ⟨hmem, rfl⟩ := Option.ite_some_none_eq_some.mp hstep
    have hsum := sum_erase_add hmem
    refine ⟨hack, hchecked, ?_, hacks⟩
    simp only [List.sum_append, List.sum_singleton]
    omega
  | channelSendFails n =>
    obtain ⟨hmem, rfl⟩ := Option.ite_some_none_eq_some.mp hstep
    have hsum := sum_erase_add hmem
    refine ⟨hack, hchecked, ?_, hacks⟩
    simp only
    omega
  | closeSemaphore | clientClose =>
    obtain rfl := Option.some.inj hstep
    exact ⟨hack, hchecked, hframes, hacks⟩
  | acknowledge consumed =>
    obtain rfl := Option.some.inj hstep
    exact Inv.beginAcknowledge ⟨hack, hchecked, hframes, hacks⟩ consumed
  | clientAck consumed =>
    obtain ⟨-, rfl⟩ := Option.ite_some_none_eq_some.mp hstep
    have herase : Inv { s with acks := s.acks.erase consumed } :=
      ⟨hack, hchecked, hframes, fun c hc => hacks c (List.mem_of_mem_erase hc)⟩
    exact herase.beginAcknowledge consumed
  | fetchMax consumed =>
    obtain ⟨hmem, rfl⟩ := Option.ite_some_none_eq_some.mp hstep
    refine ⟨max_le hack (hchecked consumed hmem), fun c hc => ?_, hframes, hacks⟩
    exact hchecked c (List.mem_of_mem_erase hc)
  | deliver =>
    simp only [FlowState.step] at hstep
    cases hch : s.channel with
    | nil => simp [hch] at hstep
    | cons n channel =>
      simp only [hch, List.sum_cons] at hstep hframes
      split_ifs at hstep <;> obtain rfl := Option.some.inj hstep
      · exact ⟨hack, hchecked, by simp only; omega, hacks⟩
      · exact ⟨hack, hchecked, by simp only [List.sum_cons]; omega, hacks⟩
  | viewConsumes n =>
    obtain ⟨hmem, rfl⟩ := Option.ite_some_none_eq_some.mp hstep
    have hsum := sum_erase_add hmem
    obtain ⟨hge, hle, hsend⟩ := s.client.consume_spec n
    refine ⟨hack, hchecked, ?_, fun c hc => ?_⟩
    · simp only [withClient]
      omega
    · rcases List.mem_append.mp hc with hc | hc
      · exact (hsend c (Option.mem_toList.mp hc)).le
      · exact (hacks c hc).trans hge
  | clientTimer =>
    obtain ⟨-, rfl⟩ := Option.ite_some_none_eq_some.mp hstep
    obtain ⟨htotal, hsend⟩ := s.client.flush_spec
    refine ⟨hack, hchecked, ?_, fun c hc => ?_⟩
    · simp only [withClient, htotal]
      exact hframes
    · rw [withClient, htotal]
      rcases List.mem_append.mp hc with hc | hc
      · exact (hsend c (Option.mem_toList.mp hc)).le
      · exact hacks c hc

/-- The permits owed are the bytes newly acknowledged. -/
theorem sum_owedPermits (consumed previous : ℕ) :
    (owedPermits consumed previous).sum = consumed - previous := by
  unfold owedPermits
  split_ifs with h
  · exact List.sum_singleton
  · rw [List.sum_nil]
    omega

theorem ledger_beginAcknowledge (s : FlowState) (consumed : ℕ) :
    (s.beginAcknowledge consumed).ledger = s.ledger := by
  unfold FlowState.beginAcknowledge
  split <;> rfl

/-- **Each operation is a move of the ledger**, or leaves it as it is. -/
theorem step_reach {s s' : FlowState} {e : FlowEvent} (h : s.Inv) (hok : s.NoWrap e)
    (hstep : s.step e = some s') : CreditLedger.Reach s.ledger s'.ledger := by
  obtain ⟨hack, hchecked, -, -⟩ := h
  cases e with
  | sendFrame frameLen =>
    simp only [FlowState.step] at hstep
    cases hc : FlowControl.checkFrame frameLen <;> simp only [hc, Option.some.injEq] at hstep <;>
      subst hstep
    · exact .refl
    · refine .single (.take 0 ?_ ?_ ?_ ?_) <;> simp [ledger, held]
  | assignPermits call k =>
    simp only [FlowState.step, Option.ite_none_right_eq_some, Option.some.injEq] at hstep
    obtain ⟨⟨hmem, -, -, hk⟩, rfl⟩ := hstep
    have hsum := sum_assigned_erase hmem
    refine .single (.take k ?_ ?_ rfl rfl)
    · simp only [ledger]
      omega
    · simp only [ledger, held, List.map_cons, List.sum_cons]
      omega
  | acquireDone n =>
    obtain ⟨hmem, rfl⟩ := Option.ite_some_none_eq_some.mp hstep
    have hsum := sum_assigned_erase hmem
    refine .single (.take 0 rfl ?_ rfl rfl)
    simp only [ledger, held, List.sum_cons] at hsum ⊢
    omega
  | acquireGivenUp call =>
    obtain ⟨hmem, rfl⟩ := Option.ite_some_none_eq_some.mp hstep
    have hsum := sum_assigned_erase hmem
    refine .single (.giveBack call.assigned rfl ?_ rfl rfl)
    simp only [ledger, held]
    omega
  | countSent n =>
    obtain ⟨hmem, rfl⟩ := Option.ite_some_none_eq_some.mp hstep
    have hsum := sum_erase_add hmem
    rw [Nat.mod_eq_of_lt hok]
    refine .single (.lend n rfl ?_ ?_ rfl) <;> simp only [ledger, held] <;> omega
  | channelSend n | channelSendFails n | viewConsumes n | clientTimer =>
    obtain ⟨-, rfl⟩ := Option.ite_some_none_eq_some.mp hstep
    exact .refl
  | closeSemaphore =>
    obtain rfl := Option.some.inj hstep
    exact .refl
  | acknowledge consumed =>
    obtain rfl := Option.some.inj hstep
    rw [ledger_beginAcknowledge]
  | clientAck consumed =>
    obtain ⟨-, rfl⟩ := Option.ite_some_none_eq_some.mp hstep
    rw [ledger_beginAcknowledge]
    exact .refl
  | fetchMax consumed =>
    obtain ⟨hmem, rfl⟩ := Option.ite_some_none_eq_some.mp hstep
    have hle := hchecked consumed hmem
    refine .single (.settle (consumed - s.flow.acknowledged) rfl rfl ?_ ?_)
    · simp only [ledger, FlowControl.fetchMax]
      omega
    · simp only [ledger, FlowControl.fetchMax, List.sum_append, sum_owedPermits]
      omega
  | addPermits n =>
    obtain ⟨hmem, rfl⟩ := Option.ite_some_none_eq_some.mp hstep
    have hsum := sum_erase_add hmem
    exact .single (.repay n rfl rfl rfl hsum.symm)
  | deliver =>
    simp only [FlowState.step] at hstep
    cases hch : s.channel with
    | nil => simp [hch] at hstep
    | cons n channel =>
      simp only [hch] at hstep
      split_ifs at hstep <;> obtain rfl := Option.some.inj hstep <;> exact .refl
  | clientClose =>
    obtain rfl := Option.some.inj hstep
    exact .refl

end FlowState

section Runs

variable {s : FlowState} {trace : List FlowEvent}

theorem flow_inv (hok : flowMachine.Meets FlowState.NoWrap trace)
    (h : flowMachine.run trace = some s) : s.Inv :=
  Machine.run_invariant_of FlowState.inv_init (fun _ _ _ hI hmeets hstep => hI.step hmeets hstep)
    hok h

theorem flow_refines_ledger (hok : flowMachine.Meets FlowState.NoWrap trace)
    (h : flowMachine.run trace = some s) :
    CreditLedger.Reach FlowState.init.ledger s.ledger :=
  flowMachine.run_refines_of FlowState.ledger FlowState.inv_init
    (fun _ _ _ hI hmeets hstep => hI.step hmeets hstep)
    (fun _ _ _ hI hmeets hstep => FlowState.step_reach hI hmeets hstep) hok h

theorem flow_total (hok : flowMachine.Meets FlowState.NoWrap trace)
    (h : flowMachine.run trace = some s) : s.ledger.total = terminalInFlightBytes :=
  CreditLedger.reach_total (flow_refines_ledger hok h)

/-- The credit law of a stream. -/
structure CreditConserved (s : FlowState) : Prop where
  /-- Permits, bytes sent and not acknowledged, permits held by a sender that has
  not counted them, and credit between `fetch_max` and `add_permits` are the window. -/
  window : s.flow.slots + (s.flow.sent - s.flow.acknowledged) + s.held + s.releasing.sum =
    terminalInFlightBytes
  acknowledged_le : s.flow.acknowledged ≤ s.flow.sent
  slots_le : s.flow.slots ≤ terminalInFlightBytes
  unacknowledged_le : s.flow.sent - s.flow.acknowledged ≤ terminalInFlightBytes
  /-- A count is accepted exactly when it does not exceed `sent`. -/
  accepted_iff : ∀ consumed, (∃ f, s.flow.acknowledge consumed = .ok f) ↔ consumed ≤ s.flow.sent
  /-- A count at or below `acknowledged` is accepted without any credit. -/
  stale : ∀ consumed ≤ s.flow.acknowledged, s.flow.acknowledge consumed = .ok s.flow
  /-- Each count the client put on its way is accepted, as long as it counts each byte. -/
  client_accepted : s.flow.sent ≤ maxExact →
    ∀ consumed ∈ s.acks, ∃ f, s.flow.acknowledge consumed = .ok f

/-- **Flow-control credit is conserved** in every interleaving of the atomic operations of
senders, acknowledgements and the client, in which `sent` does not wrap. -/
theorem flow_credit_conserved (hok : flowMachine.Meets FlowState.NoWrap trace)
    (h : flowMachine.run trace = some s) : CreditConserved s := by
  have hinv := flow_inv hok h
  have htotal := flow_total hok h
  simp only [CreditLedger.total, FlowState.ledger] at htotal
  refine
    { window := by omega
      acknowledged_le := hinv.acknowledged_le
      slots_le := by omega
      unacknowledged_le := by omega
      accepted_iff := fun consumed => FlowControl.acknowledge_ok
      stale := fun consumed hstale =>
        FlowControl.acknowledge_stale hinv.acknowledged_le hstale
      client_accepted := fun _ consumed hmem => ?_ }
  have hconsumed := hinv.acks_le consumed hmem
  have hframes := hinv.frames_le
  exact FlowControl.acknowledge_ok.mpr (by omega)

end Runs

/-- One frame of 16 bytes, sent and acknowledged, before `add_permits`. -/
def inTransitTrace : List FlowEvent :=
  [.sendFrame 17, .assignPermits ⟨16, 0⟩ 16, .acquireDone 16, .countSent 16, .channelSend 16,
    .acknowledge 16, .fetchMax 16]

/-- The state that `inTransitTrace` reaches. -/
def inTransit : FlowState :=
  { FlowState.init with
    flow := { slots := 1048560, closed := false, sent := 16, acknowledged := 16 }
    releasing := [16], channel := [16] }

/-- The credit law at that state. -/
theorem flow_credit_conserved_inTransit :
    flowMachine.run inTransitTrace = some inTransit ∧ CreditConserved inTransit :=
  have hok : flowMachine.Meets FlowState.NoWrap inTransitTrace := by decide
  ⟨rfl, flow_credit_conserved hok rfl⟩

/-! ### When the counter wraps -/

/-- A frame of `b` bytes, sent to a closed window and acknowledged, when `n` bytes were sent
before. -/
def roundTrace (n b : ℕ) : List FlowEvent :=
  [.sendFrame (b + 1), .assignPermits ⟨b, 0⟩ b, .acquireDone b, .countSent b, .channelSend b,
    .deliver, .acknowledge (n + b), .fetchMax (n + b), .addPermits b]

/-- A stream whose window is closed, after `n` bytes that are all acknowledged. -/
def settled (n : ℕ) : FlowState :=
  { FlowState.init with
    flow := { FlowControl.default with sent := n, acknowledged := n }
    client := Consumption.new.close }

/-- A frame that fits is let through. -/
theorem checkFrame_ok {b : ℕ} (hpos : 0 < b) (hframe : b ≤ terminalFrameBytes) :
    FlowControl.checkFrame (b + 1) = .ok () := by
  rw [FlowControl.checkFrame, if_neg (by omega)]

theorem run_roundTrace {n b : ℕ} (hpos : 0 < b) (hframe : b ≤ terminalFrameBytes)
    (h : n + b < u64Size) :
    flowMachine.runFrom (settled n) (roundTrace n b) = some (settled (n + b)) := by
  have hwindow : b ≤ terminalInFlightBytes := hframe.trans (by decide)
  have hsent : (n + b) % u64Size = n + b := Nat.mod_eq_of_lt h
  have hslots : terminalInFlightBytes - b + b = terminalInFlightBytes := Nat.sub_add_cancel hwindow
  simp [roundTrace, settled, flowMachine, FlowState.step, checkFrame_ok hpos hframe, hwindow, hsent,
    hslots, hpos, FlowState.init, FlowControl.default, FlowState.beginAcknowledge,
      Consumption.close,
    FlowControl.checkConsumed, FlowControl.fetchMax, FlowState.owedPermits, FlowControl.addPermits]

/-- Every number of bytes below the size of a `u64` is sent and acknowledged by some run. -/
theorem reachable_settled {n : ℕ} (h : n < u64Size) : flowMachine.Reachable (settled n) := by
  induction n with
  | zero => exact ⟨[.clientClose], rfl⟩
  | succ n ih =>
    obtain ⟨trace, htrace⟩ := ih (by omega)
    refine ⟨trace ++ roundTrace n 1, ?_⟩
    rw [Machine.run, Machine.runFrom_append, ← Machine.run, htrace]
    exact run_roundTrace Nat.one_pos (by decide) h

/-- The last byte that fits is acknowledged, and one more is sent. -/
def wrapTrace : List FlowEvent :=
  [.sendFrame 2, .assignPermits ⟨1, 0⟩ 1, .acquireDone 1, .countSent 1]

/-- **Credit is lost when `sent` wraps.**  Afterwards fewer bytes are sent than acknowledged, and
the permit of the last one is in none of the accounts. -/
theorem credit_lost_by_wrap : ∃ s, flowMachine.Reachable s ∧
    s.flow.sent < s.flow.acknowledged ∧ s.ledger.total ≠ terminalInFlightBytes := by
  obtain ⟨trace, htrace⟩ := reachable_settled (n := u64Size - 1) (by decide)
  have hrun : (flowMachine.runFrom (settled (u64Size - 1)) wrapTrace).map (fun s =>
      (s.flow.sent, s.flow.acknowledged, s.ledger.total)) =
        some (0, u64Size - 1, terminalInFlightBytes - 1) := by
    decide +kernel
  obtain ⟨s, hs, hview⟩ := Option.map_eq_some_iff.mp hrun
  simp only [Prod.mk.injEq] at hview
  obtain ⟨hsent, hacknowledged, htotal⟩ := hview
  refine ⟨s, ⟨trace ++ wrapTrace, ?_⟩, ?_, ?_⟩
  · rw [Machine.run, Machine.runFrom_append, ← Machine.run, htrace]
    exact hs
  · rw [hsent, hacknowledged]
    decide
  · rw [htotal]
    decide

/-- **Three readings of the credit law that fail.**  Between `fetch_max` and `add_permits` the
permits, the unacknowledged bytes and the permits held are short of the window; a count below
`acknowledged` is accepted all the same; and after 2^64 bytes a permit is lost for good. -/
theorem credit_in_transit_and_stale_accepted :
    flowMachine.run inTransitTrace = some inTransit ∧
      inTransit.flow.slots + (inTransit.flow.sent - inTransit.flow.acknowledged) +
          inTransit.held ≠ terminalInFlightBytes ∧
      0 < inTransit.flow.acknowledged ∧
      inTransit.flow.acknowledge 0 = .ok inTransit.flow ∧
      ∃ s, flowMachine.Reachable s ∧ s.flow.sent < s.flow.acknowledged ∧
        s.ledger.total ≠ terminalInFlightBytes :=
  ⟨rfl, by decide, by decide, rfl, credit_lost_by_wrap⟩

end Terminal
end HelmSsh
