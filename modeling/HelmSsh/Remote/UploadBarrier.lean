/-
# Closing an SFTP session under uploads

`SftpRecord::close` (`src-tauri/src/remote.rs`) sets the flag `closed`, wakes the waiters, and
waits until `active_api_uploads` is zero before it releases the pooled sessions.
`register_api_upload` looks at the flag, counts the upload, and looks at the flag again; the
guard that it returns is held by the upload, and by the clean-up task when the request is
dropped.  Every atomic operation is an event, so the interleavings are those of sequentially
consistent atomics.

`Notify::notified` receives the wake-ups of every `notify_waiters` after its creation: the model
counts the calls of `notify_waiters`, and a waiter remembers the count.

* `barrier_of_run` — when a close passes its wait, the count is zero; from then on no upload is
  registered, and what is counted are calls about to be refused; and a close waits in vain only
  while the task that will wake it is between its `fetch_sub` and its `notify_waiters`.
* `count_rises_after_pass` — the count may rise again for the moment of a refused call.
-/

import HelmSsh.Machine
import HelmSsh.Pool

namespace HelmSsh
namespace Remote
namespace UploadBarrier

/-- How far a call of `register_api_upload` and its upload are. -/
inductive UploadPhase
  | begun
  /-- The flag was not set. -/
  | checked
  /-- Counted, before the second look at the flag. -/
  | counted
  /-- `Ok`: the upload holds the guard. -/
  | registered
  /-- The request was dropped: the task that removes the temporary file holds the guard. -/
  | cleaning
  /-- The flag was set at the second look. -/
  | rollingBack
  /-- After `fetch_sub`, before `notify_waiters`. -/
  | uncounted (refused : Bool)
  | finished (refused : Bool)
  deriving DecidableEq

/-- The task is in the count. -/
def UploadPhase.counts : UploadPhase → Bool
  | .counted | .registered | .cleaning | .rollingBack => true
  | _ => false

/-- The task holds a guard, and so may use a session of the pool. -/
def UploadPhase.holdsGuard : UploadPhase → Bool
  | .registered | .cleaning => true
  | _ => false

/-- The task is about to wake the waiters. -/
def UploadPhase.wakes : UploadPhase → Bool
  | .uncounted _ => true
  | _ => false

/-- How far a `close` is. -/
inductive ClosePhase
  | begun
  /-- The flag is set. -/
  | stored
  /-- At the head of the loop of `wait_for_api_upload_cleanup`. -/
  | looping
  /-- `notified` was created after so many wake-ups. -/
  | subscribed (epoch : ℕ)
  /-- The count was not zero. -/
  | waiting (epoch : ℕ)
  | passed
  | timedOut
  /-- The pooled sessions are released. -/
  | released (timedOut : Bool)
  deriving DecidableEq

/-- The close has passed its wait without timing out. -/
def ClosePhase.hasPassed : ClosePhase → Bool
  | .passed | .released false => true
  | _ => false

/-- A record with the calls on it. -/
structure State where
  /-- `closed`. -/
  closed : Bool
  /-- `active_api_uploads`. -/
  active : ℕ
  /-- The calls of `api_upload_notify.notify_waiters` so far. -/
  epoch : ℕ
  uploads : List UploadPhase
  closers : List ClosePhase
  deriving DecidableEq

/-- One operation of an upload. -/
inductive UploadAction
  | load
  | add
  | recheck
  | subtract
  | notify
  | drop
  deriving DecidableEq

/-- One operation of a close. -/
inductive CloseAction
  | store
  | signal
  | subscribe
  | load
  | wake
  | timeOut
  | release
  deriving DecidableEq

/-- An operation, or a new call. -/
inductive Event
  | arrive
  | close
  | upload (i : ℕ) (action : UploadAction)
  | closer (j : ℕ) (action : CloseAction)
  deriving DecidableEq

namespace State

/-- The `i`-th upload goes on. -/
def setUpload (s : State) (i : ℕ) (u : UploadPhase) : State :=
  { s with uploads := s.uploads.set i u }

/-- The `j`-th close goes on. -/
def setCloser (s : State) (j : ℕ) (p : ClosePhase) : State :=
  { s with closers := s.closers.set j p }

/-- An operation of `register_api_upload`, of the upload or of the drop of its guard. -/
def uploadStep (s : State) (i : ℕ) : UploadPhase → UploadAction → Option State
  | .begun, .load => some (s.setUpload i (if s.closed then .finished true else .checked))
  | .checked, .add => some { s.setUpload i .counted with active := s.active + 1 }
  | .counted, .recheck => some (s.setUpload i (if s.closed then .rollingBack else .registered))
  | .rollingBack, .subtract =>
    some { s.setUpload i (.uncounted true) with active := s.active - 1 }
  | .registered, .drop => some (s.setUpload i .cleaning)
  | .registered, .subtract =>
    some { s.setUpload i (.uncounted false) with active := s.active - 1 }
  | .cleaning, .subtract => some { s.setUpload i (.uncounted false) with active := s.active - 1 }
  | .uncounted refused, .notify =>
    some { s.setUpload i (.finished refused) with epoch := s.epoch + 1 }
  | _, _ => none

/-- An operation of `close`. -/
def closeStep (s : State) (j : ℕ) : ClosePhase → CloseAction → Option State
  | .begun, .store => some { s.setCloser j .stored with closed := true }
  | .stored, .signal => some { s.setCloser j .looping with epoch := s.epoch + 1 }
  | .looping, .subscribe => some (s.setCloser j (.subscribed s.epoch))
  | .subscribed epoch, .load =>
    some (s.setCloser j (if s.active = 0 then .passed else .waiting epoch))
  | .waiting epoch, .wake => if epoch < s.epoch then some (s.setCloser j .looping) else none
  | .looping, .timeOut => some (s.setCloser j .timedOut)
  | .subscribed _, .timeOut => some (s.setCloser j .timedOut)
  | .waiting _, .timeOut => some (s.setCloser j .timedOut)
  | .passed, .release => some (s.setCloser j (.released false))
  | .timedOut, .release => some (s.setCloser j (.released true))
  | _, _ => none

/-- One event. -/
def step (s : State) : Event → Option State
  | .arrive => some { s with uploads := s.uploads ++ [.begun] }
  | .close => some { s with closers := s.closers ++ [.begun] }
  | .upload i action => s.uploads[i]?.bind fun u => s.uploadStep i u action
  | .closer j action => s.closers[j]?.bind fun p => s.closeStep j p action

end State

/-- The machine of one record. -/
def record : Machine State Event where
  init := { closed := false, active := 0, epoch := 0, uploads := [], closers := [] }
  step := State.step

/-! ### The invariant -/

/-- Some task is about to wake the waiters. -/
def State.Waking (s : State) : Prop :=
  ∃ (i : ℕ) (u : UploadPhase), s.uploads[i]? = some u ∧ u.wakes = true

/-- The count is that of the tasks, a close was announced by the flag, and a close that waits
will be woken. -/
structure Inv (s : State) : Prop where
  count : s.active = s.uploads.countP UploadPhase.counts
  announced : ∀ (j : ℕ) (p : ClosePhase), s.closers[j]? = some p → p ≠ .begun → s.closed = true
  /-- After a close has passed, nobody holds a guard. -/
  shut : (∃ (j : ℕ) (p : ClosePhase), s.closers[j]? = some p ∧ p.hasPassed = true) →
    ∀ (i : ℕ) (u : UploadPhase), s.uploads[i]? = some u → u.holdsGuard = false
  past : ∀ (j epoch : ℕ), (s.closers[j]? = some (.subscribed epoch) ∨
    s.closers[j]? = some (.waiting epoch)) → epoch ≤ s.epoch
  woken : ∀ (j epoch : ℕ), s.closers[j]? = some (.waiting epoch) → s.epoch ≤ epoch →
    0 < s.active ∨ s.Waking

namespace Inv

variable {s : State} {i j : ℕ} {u : UploadPhase} {p : ClosePhase}

/-- **A step of an upload**: it changes the count by its own part, holds a guard only if it did
or if no close was announced, and leaves the waking to nobody. -/
theorem afterUpload (h : Inv s) (hu : s.uploads[i]? = some u) {u' : UploadPhase} {active epoch : ℕ}
    (hcount : active + (if u.counts then 1 else 0) = s.active + (if u'.counts then 1 else 0))
    (hguard : u'.holdsGuard = true → u.holdsGuard = true ∨ s.closed = false)
    (hepoch : s.epoch ≤ epoch)
    (hwakes : s.epoch < epoch ∨ (u.wakes = false ∧ (s.active ≤ active ∨ u'.wakes = true))) :
    Inv { s.setUpload i u' with active := active, epoch := epoch } where
  count := by
    have hset := Pool.countP_set (p := UploadPhase.counts) hu u'
    have hold := h.count
    show active = (s.uploads.set i u').countP UploadPhase.counts
    omega
  announced := h.announced
  shut := by
    rintro ⟨j, p, hp, hpassed⟩ k v hv
    rcases Pool.getElem?_set hv with ⟨rfl, rfl⟩ | ⟨-, hv⟩
    · by_contra hholds
      rcases hguard (Bool.not_eq_false _ ▸ hholds) with hold | hopen
      · rw [h.shut ⟨j, p, hp, hpassed⟩ _ _ hu] at hold
        cases hold
      · have hclosed := h.announced j p hp (by rintro rfl; cases hpassed)
        rw [hopen] at hclosed
        cases hclosed
    · exact h.shut ⟨j, p, hp, hpassed⟩ k v hv
  past j e he := Nat.le_trans (h.past j e he) hepoch
  woken j e he hle := by
    have hpast := h.past j e (.inr he)
    have hsame : ¬ s.epoch < epoch := by
      have : epoch ≤ e := hle
      omega
    obtain ⟨hquiet, hactive⟩ := hwakes.resolve_left hsame
    rcases hactive with hactive | hwakes
    · rcases h.woken j e he (by have : epoch ≤ e := hle; omega) with hpos | ⟨k, v, hv, hvw⟩
      · exact .inl (Nat.lt_of_lt_of_le hpos hactive)
      · refine .inr ⟨k, v, ?_, hvw⟩
        have hki : i ≠ k := by
          rintro rfl
          rw [hu] at hv
          obtain rfl := Option.some.inj hv
          rw [hquiet] at hvw
          cases hvw
        show (s.uploads.set i u')[k]? = some v
        rw [List.getElem?_set_ne hki]
        exact hv
    · exact .inr ⟨i, u', Pool.getElem?_set_self hu, hwakes⟩

/-- **A step of a close**: it announces itself before anything else, passes when nobody holds a
guard, and waits when somebody will wake it. -/
theorem afterClose (h : Inv s) {p' : ClosePhase} {closed : Bool} {epoch : ℕ}
    (hclosed : closed = true) (hepoch : s.epoch ≤ epoch)
    (hpassed : p'.hasPassed = true →
      ∀ (k : ℕ) (u : UploadPhase), s.uploads[k]? = some u → u.holdsGuard = false)
    (hpast : ∀ e, p' = .subscribed e ∨ p' = .waiting e → e ≤ epoch)
    (hwoken : ∀ e, p' = .waiting e → epoch ≤ e → 0 < s.active ∨ s.Waking) :
    Inv { s.setCloser j p' with closed := closed, epoch := epoch } where
  count := h.count
  announced _ _ _ _ := hclosed
  shut := by
    rintro ⟨k, q, hq, hqp⟩
    rcases Pool.getElem?_set hq with ⟨rfl, rfl⟩ | ⟨-, hq⟩
    · exact hpassed hqp
    · exact h.shut ⟨k, q, hq, hqp⟩
  past k e he := by
    rcases he with he | he
    · rcases Pool.getElem?_set he with ⟨rfl, rfl⟩ | ⟨-, he⟩
      · exact hpast e (.inl rfl)
      · exact Nat.le_trans (h.past k e (.inl he)) hepoch
    · rcases Pool.getElem?_set he with ⟨rfl, rfl⟩ | ⟨-, he⟩
      · exact hpast e (.inr rfl)
      · exact Nat.le_trans (h.past k e (.inr he)) hepoch
  woken k e he hle := by
    rcases Pool.getElem?_set he with ⟨rfl, rfl⟩ | ⟨-, he⟩
    · exact hwoken e rfl hle
    · have hold := h.past k e (.inr he)
      exact h.woken k e he (by have : epoch ≤ e := hle; omega)

theorem init : Inv record.init where
  count := rfl
  announced _ _ hp := by cases hp
  shut _ _ _ hu := by cases hu
  past _ _ he := by rcases he with he | he <;> cases he
  woken _ _ he := by cases he

/-- A new call of `register_api_upload`. -/
theorem arrive (h : Inv s) : Inv { s with uploads := s.uploads ++ [.begun] } where
  count := by
    show s.active = (s.uploads ++ [UploadPhase.begun]).countP UploadPhase.counts
    rw [List.countP_append, ← h.count]
    rfl
  announced := h.announced
  shut hpassed k u hu := by
    rcases Pool.getElem?_add hu with ⟨-, rfl⟩ | hu
    · rfl
    · exact h.shut hpassed k u hu
  past := h.past
  woken j e he hle := by
    rcases h.woken j e he hle with hpos | hwaking
    · exact .inl hpos
    · exact .inr (Pool.exists_add hwaking)

/-- A new `close`. -/
theorem close (h : Inv s) : Inv { s with closers := s.closers ++ [ClosePhase.begun] } where
  count := h.count
  announced j p hp hbegun := by
    rcases Pool.getElem?_add hp with ⟨-, rfl⟩ | hp
    · exact absurd rfl hbegun
    · exact h.announced j p hp hbegun
  shut := by
    rintro ⟨j, p, hp, hpassed⟩
    rcases Pool.getElem?_add hp with ⟨-, rfl⟩ | hp
    · cases hpassed
    · exact h.shut ⟨j, p, hp, hpassed⟩
  past j e he := by
    rcases he with he | he
    · rcases Pool.getElem?_add he with ⟨-, heq⟩ | he
      · cases heq
      · exact h.past j e (.inl he)
    · rcases Pool.getElem?_add he with ⟨-, heq⟩ | he
      · cases heq
      · exact h.past j e (.inr he)
  woken j e he := by
    rcases Pool.getElem?_add he with ⟨-, heq⟩ | he
    · cases heq
    · exact h.woken j e he

theorem nobody (h : Inv s) (hzero : s.active = 0) (k : ℕ) (v : UploadPhase)
    (hv : s.uploads[k]? = some v) : v.holdsGuard = false := by
  have hcount := h.count
  rw [hzero, eq_comm, List.countP_eq_zero] at hcount
  have hv' := hcount v (List.mem_of_getElem? hv)
  cases v <;> first | rfl | exact absurd rfl hv'

/-- **Each operation of an upload keeps the invariant.** -/
theorem uploadStep (h : Inv s) (hu : s.uploads[i]? = some u) {action : UploadAction} {s' : State}
    (hstep : s.uploadStep i u action = some s') : Inv s' := by
  have hpos : u.counts = true → 0 < s.active := fun hc => by
    rw [h.count, List.countP_pos_iff]
    exact ⟨u, List.mem_of_getElem? hu, hc⟩
  unfold State.uploadStep at hstep
  split at hstep
  case h_1 | h_3 =>
    obtain rfl := Option.some.inj hstep
    refine h.afterUpload hu ?_ ?_ (Nat.le_refl _) (.inr ⟨rfl, .inl (Nat.le_refl _)⟩)
    · cases s.closed <;> rfl
    · cases s.closed <;> simp [UploadPhase.holdsGuard]
  case h_2 =>
    obtain rfl := Option.some.inj hstep
    exact h.afterUpload hu rfl (by simp [UploadPhase.holdsGuard]) (Nat.le_refl _)
      (.inr ⟨rfl, .inl (Nat.le_succ _)⟩)
  case h_5 =>
    obtain rfl := Option.some.inj hstep
    exact h.afterUpload hu rfl (fun _ => .inl rfl) (Nat.le_refl _)
      (.inr ⟨rfl, .inl (Nat.le_refl _)⟩)
  case h_8 =>
    obtain rfl := Option.some.inj hstep
    exact h.afterUpload hu rfl (by simp [UploadPhase.holdsGuard]) (Nat.le_succ _)
      (.inl (Nat.lt_succ_self _))
  case h_9 => cases hstep
  -- The three operations that subtract: the count was positive, and the notification follows.
  all_goals
    obtain rfl := Option.some.inj hstep
    have hpos := hpos rfl
    refine h.afterUpload hu ?_ (by simp [UploadPhase.holdsGuard]) (Nat.le_refl _)
      (.inr ⟨rfl, .inr rfl⟩)
    show s.active - 1 + 1 = s.active + 0
    omega

/-- **Each operation of a close keeps the invariant.** -/
theorem closeStep (h : Inv s) (hp : s.closers[j]? = some p) {action : CloseAction} {s' : State}
    (hstep : s.closeStep j p action = some s') : Inv s' := by
  have hclosed : p ≠ .begun → s.closed = true := h.announced j p hp
  unfold State.closeStep at hstep
  split at hstep
  case h_1 =>
    obtain rfl := Option.some.inj hstep
    exact h.afterClose rfl (Nat.le_refl _) (by simp [ClosePhase.hasPassed]) (by simp) (by simp)
  case h_2 =>
    obtain rfl := Option.some.inj hstep
    exact h.afterClose (hclosed (by simp)) (Nat.le_succ _) (by simp [ClosePhase.hasPassed])
      (by simp) (by simp)
  case h_3 =>
    obtain rfl := Option.some.inj hstep
    exact h.afterClose (hclosed (by simp)) (Nat.le_refl _) (by simp [ClosePhase.hasPassed])
      (by simp) (by simp)
  case h_4 epoch =>
    obtain rfl := Option.some.inj hstep
    have hpast := h.past j epoch (.inl hp)
    by_cases hzero : s.active = 0
    · simp only [if_pos hzero]
      exact h.afterClose (hclosed (by simp)) (Nat.le_refl _) (fun _ => h.nobody hzero) (by simp)
        (by simp)
    · simp only [if_neg hzero]
      refine h.afterClose (hclosed (by simp)) (Nat.le_refl _) (by simp [ClosePhase.hasPassed])
        ?_ ?_
      · rintro e (⟨⟨⟩⟩ | ⟨⟨⟩⟩)
        exact hpast
      · intro _ _ _
        exact .inl (Nat.pos_of_ne_zero hzero)
  case h_5 epoch =>
    split_ifs at hstep with hwoken
    obtain rfl := Option.some.inj hstep
    exact h.afterClose (hclosed (by simp)) (Nat.le_refl _) (by simp [ClosePhase.hasPassed])
      (by simp) (by simp)
  case h_9 =>
    obtain rfl := Option.some.inj hstep
    exact h.afterClose (hclosed (by simp)) (Nat.le_refl _)
      (fun _ => h.shut ⟨j, .passed, hp, rfl⟩) (by simp) (by simp)
  case h_11 => cases hstep
  -- The time-outs, and the release after one.
  all_goals
    obtain rfl := Option.some.inj hstep
    exact h.afterClose (hclosed (by simp)) (Nat.le_refl _) (by simp [ClosePhase.hasPassed])
      (by simp) (by simp)

/-- **Each event keeps the invariant.** -/
theorem step {event : Event} {s' : State} (h : Inv s) (hstep : s.step event = some s') :
    Inv s' := by
  cases event with
  | arrive =>
    obtain rfl := Option.some.inj hstep
    exact h.arrive
  | close =>
    obtain rfl := Option.some.inj hstep
    exact h.close
  | upload i action =>
    obtain ⟨u, hu, hstep⟩ := Option.bind_eq_some_iff.mp hstep
    exact h.uploadStep hu hstep
  | closer j action =>
    obtain ⟨p, hp, hstep⟩ := Option.bind_eq_some_iff.mp hstep
    exact h.closeStep hp hstep

end Inv

theorem inv_of_run {es : List Event} {s : State} (hrun : record.run es = some s) : Inv s :=
  Machine.run_invariant Inv.init (fun _ _ _ h hstep => h.step hstep) hrun

/-! ### The barrier -/

/-- Some close has passed its wait. -/
def State.Passed (s : State) : Prop :=
  ∃ (j : ℕ) (p : ClosePhase), s.closers[j]? = some p ∧ p.hasPassed = true

/-- The pending notification of an upload, or an operation of the `j`-th close other than its
time-out. -/
def Event.resumes (j : ℕ) : Event → Bool
  | .upload _ .notify => true
  | .closer _ .timeOut => false
  | .closer k _ => k = j
  | _ => false

/-- A close that has passed has done so after the next event. -/
theorem State.Passed.step {s s' : State} {event : Event} (h : s.Passed)
    (hstep : s.step event = some s') : s'.Passed := by
  cases event with
  | arrive =>
    obtain rfl := Option.some.inj hstep
    exact h
  | close =>
    obtain rfl := Option.some.inj hstep
    exact Pool.exists_add h
  | upload i action =>
    obtain ⟨u, -, hstep⟩ := Option.bind_eq_some_iff.mp hstep
    unfold State.uploadStep at hstep
    split at hstep
    case h_9 => cases hstep
    all_goals
      obtain rfl := Option.some.inj hstep
      exact h
  | closer j action =>
    obtain ⟨p, hp, hstep⟩ := Option.bind_eq_some_iff.mp hstep
    unfold State.closeStep at hstep
    split at hstep
    case h_5 =>
      split_ifs at hstep
      obtain rfl := Option.some.inj hstep
      exact Pool.exists_set hp h (by simp [ClosePhase.hasPassed])
    case h_11 => cases hstep
    all_goals
      obtain rfl := Option.some.inj hstep
      exact Pool.exists_set hp h (by simp [ClosePhase.hasPassed])

/-- A close passes at a load of the count that finds zero. -/
theorem active_of_passing {s s' : State} {event : Event} {j : ℕ}
    (hbefore : s.closers[j]? ≠ some .passed) (hstep : s.step event = some s')
    (hafter : s'.closers[j]? = some .passed) : s'.active = 0 := by
  cases event with
  | arrive =>
    obtain rfl := Option.some.inj hstep
    exact absurd hafter hbefore
  | close =>
    obtain rfl := Option.some.inj hstep
    rcases Pool.getElem?_add hafter with ⟨-, heq⟩ | hold
    · cases heq
    · exact absurd hold hbefore
  | upload i action =>
    obtain ⟨u, -, hstep⟩ := Option.bind_eq_some_iff.mp hstep
    unfold State.uploadStep at hstep
    split at hstep
    case h_9 => cases hstep
    all_goals
      obtain rfl := Option.some.inj hstep
      exact absurd hafter hbefore
  | closer k action =>
    obtain ⟨p, -, hstep⟩ := Option.bind_eq_some_iff.mp hstep
    unfold State.closeStep at hstep
    split at hstep
    case h_4 =>
      obtain rfl := Option.some.inj hstep
      rcases Pool.getElem?_set hafter with ⟨-, heq⟩ | ⟨-, hold⟩
      · by_contra hactive
        have hnot : ¬ s.active = 0 := hactive
        rw [if_neg hnot] at heq
        cases heq
      · exact absurd hold hbefore
    case h_5 =>
      split_ifs at hstep
      obtain rfl := Option.some.inj hstep
      rcases Pool.getElem?_set hafter with ⟨-, heq⟩ | ⟨-, hold⟩
      · cases heq
      · exact absurd hold hbefore
    case h_11 => cases hstep
    all_goals
      obtain rfl := Option.some.inj hstep
      rcases Pool.getElem?_set hafter with ⟨-, heq⟩ | ⟨-, hold⟩
      · cases heq
      · exact absurd hold hbefore

/-- After a close has passed, what is counted is a call that is about to be refused. -/
theorem Inv.refused {s : State} (h : Inv s) (hpassed : s.Passed) {i : ℕ} {u : UploadPhase}
    (hu : s.uploads[i]? = some u) (hcounts : u.counts = true) :
    u = .rollingBack ∨ u = .counted ∧ s.closed = true := by
  have hguard := h.shut hpassed i u hu
  obtain ⟨j, p, hp, hpp⟩ := hpassed
  have hclosed := h.announced j p hp (by rintro rfl; cases hpp)
  cases u with
  | rollingBack => exact .inl rfl
  | counted => exact .inr ⟨rfl, hclosed⟩
  | registered => cases hguard
  | cleaning => cases hguard
  | begun => cases hcounts
  | checked => cases hcounts
  | uncounted _ => cases hcounts
  | finished _ => cases hcounts

/-- From the head of its loop, a close that finds the count zero passes. -/
theorem passes_from_looping {s : State} {j : ℕ} (hzero : s.active = 0)
    (hp : s.closers[j]? = some .looping) :
    ∃ s', record.runFrom s [.closer j .subscribe, .closer j .load] = some s' ∧
      s'.closers[j]? = some .passed := by
  have hsub : (s.setCloser j (.subscribed s.epoch)).closers[j]? = some (.subscribed s.epoch) :=
    Pool.getElem?_set_self hp
  refine ⟨(s.setCloser j (.subscribed s.epoch)).setCloser j .passed, ?_,
    Pool.getElem?_set_self hsub⟩
  have hfirst : record.step s (.closer j .subscribe) =
      some (s.setCloser j (.subscribed s.epoch)) := by
    simp [record, State.step, hp, State.closeStep]
  have hsecond : record.step (s.setCloser j (.subscribed s.epoch)) (.closer j .load)
      = some ((s.setCloser j (.subscribed s.epoch)).setCloser j .passed) := by
    simp only [record, State.step, hsub, Option.bind_some, State.closeStep]
    rw [if_pos (show (s.setCloser j (.subscribed s.epoch)).active = 0 from hzero)]
  rw [Machine.runFrom_cons, hfirst, Option.bind_some, Machine.runFrom_cons, hsecond,
    Option.bind_some, Machine.runFrom_nil]

/-- A close that waits and was woken passes when it finds the count zero. -/
theorem passes_from_woken {s : State} {j epoch : ℕ} (hzero : s.active = 0)
    (hp : s.closers[j]? = some (.waiting epoch)) (hwoken : epoch < s.epoch) :
    ∃ s', record.runFrom s [.closer j .wake, .closer j .subscribe, .closer j .load] = some s' ∧
      s'.closers[j]? = some .passed := by
  have hwake : record.step s (.closer j .wake) = some (s.setCloser j .looping) := by
    simp [record, State.step, hp, State.closeStep, hwoken]
  obtain ⟨s', hrun, hpassed⟩ := passes_from_looping (s := s.setCloser j .looping) hzero
    (Pool.getElem?_set_self hp)
  refine ⟨s', ?_, hpassed⟩
  rw [Machine.runFrom_cons, hwake, Option.bind_some]
  exact hrun

/-- **No wake-up is lost**: a close in its wait passes, when the count is zero, after at most the
notification that an upload is about to make and its own next operations. -/
theorem Inv.resumes {s : State} (h : Inv s) (hzero : s.active = 0) {j : ℕ} {p : ClosePhase}
    (hp : s.closers[j]? = some p)
    (hwait : p = .looping ∨ (∃ e, p = .subscribed e) ∨ ∃ e, p = .waiting e) :
    ∃ (es : List Event) (s' : State), es.length ≤ 4 ∧ es.all (·.resumes j) = true ∧
      record.runFrom s es = some s' ∧ s'.closers[j]? = some .passed := by
  rcases hwait with rfl | ⟨e, rfl⟩ | ⟨e, rfl⟩
  · obtain ⟨s', hrun, hpassed⟩ := passes_from_looping hzero hp
    exact ⟨_, s', by simp, by simp [Event.resumes], hrun, hpassed⟩
  · refine ⟨[.closer j .load], s.setCloser j .passed, by simp, by simp [Event.resumes], ?_,
      Pool.getElem?_set_self hp⟩
    simp [record, State.step, hp, State.closeStep, hzero]
  · rcases Nat.lt_or_ge e s.epoch with hwoken | hle
    · obtain ⟨s', hrun, hpassed⟩ := passes_from_woken hzero hp hwoken
      exact ⟨_, s', by simp, by simp [Event.resumes], hrun, hpassed⟩
    -- Not woken yet: an upload is between its `fetch_sub` and its `notify_waiters`.
    · rcases h.woken j e hp hle with hpos | ⟨i, u, hu, hwakes⟩
      · omega
      · cases u with
        | uncounted refused =>
          have hnotify : record.step s (.upload i .notify)
              = some { s.setUpload i (.finished refused) with epoch := s.epoch + 1 } := by
            simp [record, State.step, hu, State.uploadStep]
          have hpast := h.past j e (.inr hp)
          obtain ⟨s', hrun, hpassed⟩ := passes_from_woken
            (s := { s.setUpload i (.finished refused) with epoch := s.epoch + 1 }) hzero hp
            (Nat.lt_succ_of_le hpast)
          refine ⟨[.upload i .notify, .closer j .wake, .closer j .subscribe, .closer j .load],
            s', by simp, by simp [Event.resumes], ?_, hpassed⟩
          rw [Machine.runFrom_cons, hnotify, Option.bind_some]
          exact hrun
        | begun => cases hwakes
        | checked => cases hwakes
        | counted => cases hwakes
        | registered => cases hwakes
        | cleaning => cases hwakes
        | rollingBack => cases hwakes
        | finished _ => cases hwakes

/-- **The barrier of a close**, for every interleaving.  When a close passes its wait, the count
is zero; from then on no upload or clean-up task holds a guard, and each call in the count is
about to be refused; and a close in its wait passes, when the count is zero, after at most the
notification that an upload is about to make and its own next operations. -/
theorem barrier_of_run {es : List Event} {s : State} (hrun : record.run es = some s) :
    (∀ (event : Event) (s' : State) (j : ℕ), s.step event = some s' →
      s.closers[j]? ≠ some .passed → s'.closers[j]? = some .passed → s'.active = 0) ∧
    (s.Passed → ∀ (es' : List Event) (s' : State), record.runFrom s es' = some s' →
      ∀ (i : ℕ) (u : UploadPhase), s'.uploads[i]? = some u →
        u.holdsGuard = false ∧
        (u.counts = true → u = .rollingBack ∨ u = .counted ∧ s'.closed = true)) ∧
    (s.active = 0 → ∀ (j : ℕ) (p : ClosePhase), s.closers[j]? = some p →
      (p = .looping ∨ (∃ e, p = .subscribed e) ∨ ∃ e, p = .waiting e) →
      ∃ (es' : List Event) (s' : State), es'.length ≤ 4 ∧ es'.all (·.resumes j) = true ∧
        record.runFrom s es' = some s' ∧ s'.closers[j]? = some .passed) := by
  have h := inv_of_run hrun
  refine ⟨?_, ?_, ?_⟩
  · intro event s' j hstep hbefore hafter
    exact active_of_passing hbefore hstep hafter
  · intro hpassed es' s' hrun' i u hu
    have hlater : Inv s' ∧ s'.Passed :=
      Machine.runFrom_invariant (I := fun s => Inv s ∧ s.Passed)
        (fun _ _ _ h hstep => ⟨h.1.step hstep, h.2.step hstep⟩) ⟨h, hpassed⟩ hrun'
    exact ⟨hlater.1.shut hlater.2 i u hu, hlater.1.refused hlater.2 hu⟩
  · intro hzero j p hp hwait
    exact h.resumes hzero hp hwait

/-- An upload registers, a second call has looked at the flag, a close waits for the upload and
passes, and the second call is counted. -/
def lateCall : List Event :=
  [.arrive, .upload 0 .load, .upload 0 .add, .upload 0 .recheck, .arrive, .upload 1 .load,
    .close, .closer 0 .store, .closer 0 .signal, .closer 0 .subscribe, .closer 0 .load,
    .upload 0 .drop, .upload 0 .subtract, .upload 0 .notify, .closer 0 .wake,
    .closer 0 .subscribe, .closer 0 .load, .upload 1 .add]

/-- The barrier on the run of `lateCall`, to the state in which the close has passed. -/
theorem barrier_of_run_lateCall :
    ∃ s, record.run lateCall = some s ∧ s.Passed ∧
      ∀ (es' : List Event) (s' : State), record.runFrom s es' = some s' →
        ∀ (i : ℕ) (u : UploadPhase), s'.uploads[i]? = some u → u.holdsGuard = false := by
  have hrun : record.run lateCall = some
      { closed := true, active := 1, epoch := 2, uploads := [.finished false, .counted],
        closers := [.passed] } := by decide
  have hpassed : State.Passed
      { closed := true, active := 1, epoch := 2, uploads := [.finished false, .counted],
        closers := [.passed] } := ⟨0, .passed, rfl, rfl⟩
  exact ⟨_, hrun, hpassed, fun es' s' hrun' i u hu =>
    ((barrier_of_run hrun).2.1 hpassed es' s' hrun' i u hu).1⟩

/-- **The count is not zero for good after a close has passed**: a call that looked at the flag
before the close is counted until its second look. -/
theorem count_rises_after_pass :
    ¬ ∀ (es : List Event) (s : State), record.run es = some s → s.Passed → s.active = 0 := by
  intro h
  have hzero := h lateCall
    { closed := true, active := 1, epoch := 2, uploads := [.finished false, .counted],
      closers := [.passed] } (by decide) ⟨0, .passed, rfl, rfl⟩
  cases hzero

end UploadBarrier
end Remote
end HelmSsh
