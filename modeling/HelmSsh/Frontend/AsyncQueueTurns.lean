/-
# The turns of a serial queue

Why the queue of `src/lib/asyncQueue.ts` runs its tasks one at a time.  The tails up to one task are
settled (`Chain`); that task has its turn (`Phase`): its `run` is a job, or it is called, or its
promise is awaited, or its outcome is on the way through its result to the tail; and each task
behind it waits for the one before it.

* `Inv.step` — every event keeps this.
* `Inv.called_of_step` — a task is called only when nothing was invalidated since it came.
* `Inv.drains` — the jobs come to an end.
* `asyncQueue_serial` — all that the queue is for.
-/

import HelmSsh.Frontend.AsyncQueue
import Mathlib.Algebra.BigOperators.Group.List.Basic
import Mathlib.Algebra.GroupWithZero.Nat

namespace HelmSsh
namespace Frontend
namespace AsyncQueue

variable {V E : Type*}

/-! ### How the promises hang together -/

/-- What the call of `enqueue` for a task found the generations to be. -/
def State.captured (s : State V E) (task : ℕ) : ℕ × ℕ :=
  s.submitted.getD task (0, 0)

/-- The function `run` of a task. -/
def State.runOf (s : State V E) (task : ℕ) : Handler :=
  .run task (s.captured task).1 (s.captured task).2

/-- The queue, or all of them, have been invalidated since a task came. -/
def State.Stale (s : State V E) (task : ℕ) : Prop :=
  s.captured task ≠ (s.generation, s.globalGeneration)

/-- A result that only the tail of the queue waits for. -/
def awaited (task : ℕ) : QueuePromise V E :=
  .pending [.handle .ignore (.tail (task + 1))]

/-- The tails are settled up to the one before the task `f`, and the tasks behind it wait. -/
structure Chain (s : State V E) (f : ℕ) : Prop where
  front_le : f ≤ s.submitted.length
  tail_eq : s.tail = .tail s.submitted.length
  settled : ∀ i ≤ f, s.realm.promise (.tail i) = .settled (.fulfilled none)
  waiting : ∀ i, f < i → i < s.submitted.length →
    s.realm.promise (.tail i) = .pending [.handle (s.runOf i) (.result i)]
  last : f < s.submitted.length → s.realm.promise (.tail s.submitted.length) = .pending []
  results : ∀ i, f < i → i < s.submitted.length → s.realm.promise (.result i) = awaited i
  freshTail : ∀ i, s.submitted.length < i → s.realm.promise (.tail i) = .pending []
  freshResult : ∀ i, s.submitted.length ≤ i → s.realm.promise (.result i) = .pending []
  freshTask : ∀ i, f < i → s.realm.promise (.task i) = .pending []
  captured_le : ∀ i < s.submitted.length,
    (s.captured i).1 ≤ s.generation ∧ (s.captured i).2 ≤ s.globalGeneration
  passed : ∀ i < f, .called i ∈ s.calls ∨ s.Stale i

/-- The promise of a task that was called, as long as nobody waits for it. -/
def Live (f : ℕ) (calls : List Call) (task : QueuePromise V E) : Prop :=
  (Open calls f ∧ task = .pending []) ∨
    (Closed calls (f + 1) ∧ .called f ∈ calls ∧ ∃ outcome, task = .settled outcome)

/-- How far the task `f` is, whose turn it is: the jobs, the call on the stack, its result and its
own promise, and the calls. -/
inductive Phase (f : ℕ) (handler : Handler) (stale : Prop) :
    List (QueueJob V E) → Option (ℕ × Name) →
    QueuePromise V E → QueuePromise V E →
    List Call → Prop where
  | ready {calls} (log : Closed calls f) :
    Phase f handler stale [.react (.handle handler (.result f)) (.fulfilled none)] none (awaited f)
      (.pending []) calls
  | called {calls task} (live : Live f calls task) :
    Phase f handler stale [] (some (f, .result f)) (awaited f) task calls
  | returned {calls task} (live : Live f calls task) :
    Phase f handler stale [.follow (.result f) (.task f)] none (awaited f) task calls
  | running {calls} (log : Open calls f) :
    Phase f handler stale [] none (awaited f) (.pending [.adopt (.result f)]) calls
  | adopting {calls task outcome} (log : Closed calls (f + 1)) (called : .called f ∈ calls) :
    Phase f handler stale [.react (.adopt (.result f)) outcome] none (awaited f) task calls
  | resolved {calls task outcome} (log : Closed calls (f + 1))
    (passed : .called f ∈ calls ∨ stale) :
    Phase f handler stale [.react (.handle .ignore (.tail (f + 1))) outcome] none (.settled outcome)
      task calls

/-- Nothing is left to do. -/
structure Idle (s : State V E) : Prop where
  jobs : s.realm.jobs = []
  executing : s.executing = none
  task : s.realm.promise (.task s.submitted.length) = .pending []
  log : Closed s.calls s.submitted.length

/-- The phase of the task whose turn it is, in a state. -/
def State.InPhase (s : State V E) (f : ℕ) : Prop :=
  Phase f (s.runOf f) (s.Stale f) s.realm.jobs s.executing (s.realm.promise (.result f))
    (s.realm.promise (.task f)) s.calls

/-- The chain up to a task, and either all is done or that task has its turn. -/
def InvAt (s : State V E) (f : ℕ) : Prop :=
  Chain s f ∧ ((f = s.submitted.length ∧ Idle s) ∨ (f < s.submitted.length ∧ s.InPhase f))

/-- The invariant of a queue. -/
def Inv (s : State V E) : Prop :=
  ∃ f, InvAt s f

section Steps

variable {s s' : State V E} {f : ℕ}

theorem State.Stale.mono {i : ℕ} (h : s.Stale i)
    (hle : (s.captured i).1 ≤ s.generation ∧ (s.captured i).2 ≤ s.globalGeneration)
    (hcaptured : s'.captured i = s.captured i) (hgeneration : s.generation ≤ s'.generation)
    (hglobal : s.globalGeneration ≤ s'.globalGeneration) : s'.Stale i := by
  intro heq
  rw [hcaptured] at heq
  refine h (Prod.ext ?_ ?_)
  · have h₁ := congrArg Prod.fst heq
    dsimp only at h₁ ⊢
    omega
  · have h₂ := congrArg Prod.snd heq
    dsimp only at h₂ ⊢
    omega

/-- The chain is kept by what changes the promises of the task `f` alone. -/
theorem Chain.frame (h : Chain s f) (hsubmitted : s'.submitted = s.submitted)
    (htail : s'.tail = s.tail)
    (htails : ∀ i, s'.realm.promise (.tail i) = s.realm.promise (.tail i))
    (hresults : ∀ i, f < i → s'.realm.promise (.result i) = s.realm.promise (.result i))
    (hfresh : f = s.submitted.length →
      s'.realm.promise (.result f) = s.realm.promise (.result f))
    (htasks : ∀ i, f < i → s'.realm.promise (.task i) = s.realm.promise (.task i))
    (hgeneration : s.generation ≤ s'.generation)
    (hglobal : s.globalGeneration ≤ s'.globalGeneration)
    (hcalls : ∀ call ∈ s.calls, call ∈ s'.calls) : Chain s' f := by
  have hcaptured (i : ℕ) : s'.captured i = s.captured i := by
    rw [State.captured, hsubmitted, State.captured]
  have hrun (i : ℕ) : s'.runOf i = s.runOf i := by
    rw [State.runOf, hcaptured, State.runOf]
  have hle (i : ℕ) (hi : i < s.submitted.length) := h.captured_le i hi
  constructor
  case front_le => exact hsubmitted ▸ h.front_le
  case tail_eq => rw [htail, hsubmitted]; exact h.tail_eq
  case settled => exact fun i hi => (htails i).trans (h.settled i hi)
  case waiting =>
    intro i hi hlt
    rw [htails, hrun]
    exact h.waiting i hi (hsubmitted ▸ hlt)
  case last =>
    intro hlt
    rw [htails, hsubmitted]
    exact h.last (hsubmitted ▸ hlt)
  case results => exact fun i hi hlt => (hresults i hi).trans (h.results i hi (hsubmitted ▸ hlt))
  case freshTail => exact fun i hi => (htails i).trans (h.freshTail i (hsubmitted ▸ hi))
  case freshResult =>
    intro i hi
    rw [hsubmitted] at hi
    rcases Nat.lt_or_eq_of_le (h.front_le.trans hi) with hlt | rfl
    · exact (hresults i hlt).trans (h.freshResult i hi)
    · exact (hfresh (Nat.le_antisymm h.front_le hi)).trans (h.freshResult f hi)
  case freshTask => exact fun i hi => (htasks i hi).trans (h.freshTask i hi)
  case captured_le =>
    intro i hi
    rw [hsubmitted] at hi
    rw [hcaptured]
    exact ⟨(hle i hi).1.trans hgeneration, (hle i hi).2.trans hglobal⟩
  case passed =>
    intro i hi
    have hlt : i < s.submitted.length := hi.trans_le h.front_le
    rcases h.passed i hi with hcalled | hstale
    · exact .inl (hcalls _ hcalled)
    · exact .inr (hstale.mono (hle i hlt) (hcaptured i) hgeneration hglobal)

theorem Phase.mono {handler : Handler} {stale stale' : Prop}
    {jobs : List (QueueJob V E)} {executing : Option (ℕ × Name)}
    {result task : QueuePromise V E} {calls : List Call}
    (h : Phase f handler stale jobs executing result task calls) (hstale : stale → stale') :
    Phase f handler stale' jobs executing result task calls := by
  cases h with
  | ready log => exact .ready log
  | called live => exact .called live
  | returned live => exact .returned live
  | running log => exact .running log
  | adopting log called => exact .adopting log called
  | resolved log passed => exact .resolved log (passed.imp_right hstale)

theorem Inv.generations (h : Inv s) {generation globalGeneration : ℕ}
    (hgeneration : s.generation ≤ generation) (hglobal : s.globalGeneration ≤ globalGeneration) :
    Inv { s with generation := generation, globalGeneration := globalGeneration } := by
  obtain ⟨f, hchain, hfront⟩ := h
  refine ⟨f, hchain.frame rfl rfl (fun _ => rfl) (fun _ _ => rfl) (fun _ => rfl) (fun _ _ => rfl)
    hgeneration hglobal fun _ h => h, ?_⟩
  rcases hfront with ⟨heq, hidle⟩ | ⟨hlt, hphase⟩
  · exact .inl ⟨heq, ⟨hidle.jobs, hidle.executing, hidle.task, hidle.log⟩⟩
  · refine .inr ⟨hlt, Phase.mono hphase fun hstale => ?_⟩
    exact hstale.mono (hchain.captured_le f hlt) rfl hgeneration hglobal

theorem captured_enqueue (s : State V E) :
    (enqueue s).captured s.submitted.length = (s.generation, s.globalGeneration) ∧
      ∀ i < s.submitted.length, (enqueue s).captured i = s.captured i := by
  refine ⟨?_, fun i hi => ?_⟩
  · simp [State.captured, enqueue]
  · simp [State.captured, enqueue, List.getElem?_append_left hi]

/-- `enqueue` when the tail is pending: the new task waits for it. -/
theorem enqueue_of_pending
    (htail : s.tail = .tail s.submitted.length)
    (hpending : s.realm.promise (.tail s.submitted.length) = .pending [])
    (hresult : s.realm.promise (.result s.submitted.length) = .pending []) :
    (enqueue s).realm =
      (s.realm.set (.tail s.submitted.length)
        (.pending [.handle ((enqueue s).runOf s.submitted.length)
          (.result s.submitted.length)])).set
        (.result s.submitted.length) (awaited s.submitted.length) := by
  have hstill (reaction : Reaction Name Handler) :
      (s.realm.register (.tail s.submitted.length) reaction).promise (.result s.submitted.length) =
        .pending [] :=
    (Realm.register_promise_of_ne Name.noConfusion).trans hresult
  rw [State.runOf, (captured_enqueue s).1]
  simp only [enqueue, htail]
  rw [Realm.register_of_pending (hstill _), Realm.register_of_pending hpending]
  rfl

/-- `enqueue` when the tail is settled: the new task has its turn. -/
theorem enqueue_of_settled
    (htail : s.tail = .tail s.submitted.length)
    (hsettled : s.realm.promise (.tail s.submitted.length) = .settled (.fulfilled none))
    (hresult : s.realm.promise (.result s.submitted.length) = .pending []) :
    (enqueue s).realm =
      (s.realm.push [.react (.handle ((enqueue s).runOf s.submitted.length)
        (.result s.submitted.length)) (.fulfilled none)]).set
        (.result s.submitted.length) (awaited s.submitted.length) := by
  have hstill (reaction : Reaction Name Handler) :
      (s.realm.register (.tail s.submitted.length) reaction).promise (.result s.submitted.length) =
        .pending [] :=
    (Realm.register_promise_of_ne Name.noConfusion).trans hresult
  rw [State.runOf, (captured_enqueue s).1]
  simp only [enqueue, htail]
  rw [Realm.register_of_pending (hstill _), Realm.register_of_settled hsettled]
  rfl

theorem Chain.enqueue (h : Chain s f) : Chain (enqueue s) f := by
  have hresult := h.freshResult s.submitted.length le_rfl
  obtain ⟨hnew, hold⟩ := captured_enqueue s
  have hlength : (AsyncQueue.enqueue s).submitted.length = s.submitted.length + 1 :=
    List.length_append
  have hrun (i : ℕ) (hi : i < s.submitted.length) :
      (AsyncQueue.enqueue s).runOf i = s.runOf i := by
    rw [State.runOf, hold i hi, State.runOf]
  -- only the old tail and the new result change
  have hother (q : Name) (htail : q ≠ .tail s.submitted.length)
      (hq : q ≠ .result s.submitted.length) :
      (AsyncQueue.enqueue s).realm.promise q = s.realm.promise q := by
    change ((s.realm.register s.tail _).register _ _).promise q = _
    rw [Realm.register_promise_of_ne hq, Realm.register_promise_of_ne (h.tail_eq ▸ htail)]
  have hawaited : (AsyncQueue.enqueue s).realm.promise (.result s.submitted.length) =
      awaited s.submitted.length := by
    rcases Nat.lt_or_eq_of_le h.front_le with hlt | heq
    · rw [enqueue_of_pending h.tail_eq (h.last hlt) hresult, Realm.set_promise_self]
    · rw [enqueue_of_settled h.tail_eq (h.settled _ heq.ge) hresult, Realm.set_promise_self]
  constructor
  case front_le => rw [hlength]; exact h.front_le.trans (Nat.le_succ _)
  case tail_eq => rw [hlength]; rfl
  case settled =>
    intro i hi
    rcases Nat.lt_or_eq_of_le (hi.trans h.front_le) with hlt | rfl
    · rw [hother _ (by simp; omega) Name.noConfusion]
      exact h.settled i hi
    · rw [enqueue_of_settled h.tail_eq (h.settled _ hi) hresult,
        Realm.set_promise_of_ne Name.noConfusion]
      exact h.settled _ hi
  case waiting =>
    intro i hi hlt
    rw [hlength] at hlt
    rcases Nat.lt_or_eq_of_le (Nat.le_of_lt_succ hlt) with hlt | rfl
    · rw [hother _ (by simp; omega) Name.noConfusion, hrun i hlt]
      exact h.waiting i hi hlt
    · rw [enqueue_of_pending h.tail_eq (h.last hi) hresult,
        Realm.set_promise_of_ne Name.noConfusion, Realm.set_promise_self]
  case last =>
    intro _
    rw [hlength, hother _ (by simp) Name.noConfusion]
    exact h.freshTail _ (Nat.lt_succ_self _)
  case results =>
    intro i hi hlt
    rw [hlength] at hlt
    rcases Nat.lt_or_eq_of_le (Nat.le_of_lt_succ hlt) with hlt | rfl
    · rw [hother _ Name.noConfusion (by simp; omega)]
      exact h.results i hi hlt
    · exact hawaited
  case freshTail =>
    intro i hi
    rw [hlength] at hi
    rw [hother _ (by simp; omega) Name.noConfusion]
    exact h.freshTail i (by omega)
  case freshResult =>
    intro i hi
    rw [hlength] at hi
    rw [hother _ Name.noConfusion (by simp; omega)]
    exact h.freshResult i (by omega)
  case freshTask =>
    intro i hi
    rw [hother _ Name.noConfusion Name.noConfusion]
    exact h.freshTask i hi
  case captured_le =>
    intro i hi
    rw [hlength] at hi
    rcases Nat.lt_or_eq_of_le (Nat.le_of_lt_succ hi) with hlt | rfl
    · rw [hold i hlt]
      exact h.captured_le i hlt
    · rw [hnew]
      exact ⟨le_rfl, le_rfl⟩
  case passed =>
    intro i hi
    refine (h.passed i hi).imp_right fun hstale => ?_
    rw [State.Stale, hold i (hi.trans_le h.front_le)]
    exact hstale

/-- `enqueue` keeps the invariant. -/
theorem Inv.enqueue (h : Inv s) : Inv (enqueue s) := by
  obtain ⟨f, hchain, hfront⟩ := h
  have hresult := hchain.freshResult s.submitted.length le_rfl
  have hlength : (AsyncQueue.enqueue s).submitted.length = s.submitted.length + 1 :=
    List.length_append
  refine ⟨f, hchain.enqueue, .inr ?_⟩
  rcases hfront with ⟨rfl, hidle⟩ | ⟨hlt, hphase⟩
  · refine ⟨hlength ▸ Nat.lt_succ_self _, ?_⟩
    rw [State.InPhase, enqueue_of_settled hchain.tail_eq (hchain.settled _ le_rfl) hresult,
      Realm.set_promise_self, Realm.set_promise_of_ne Name.noConfusion, Realm.set_jobs,
      Realm.push_jobs, Realm.push_promise, hidle.task, hidle.jobs]
    change Phase _ _ _ _ s.executing _ _ _
    rw [hidle.executing]
    exact .ready hidle.log
  · refine ⟨by omega, ?_⟩
    have hcaptured := (captured_enqueue s).2 f hlt
    rw [State.InPhase, State.runOf, State.Stale, hcaptured,
      enqueue_of_pending hchain.tail_eq (hchain.last hlt) hresult,
      Realm.set_promise_of_ne (by simp; omega), Realm.set_promise_of_ne Name.noConfusion,
      Realm.set_promise_of_ne Name.noConfusion, Realm.set_promise_of_ne Name.noConfusion]
    exact hphase

/-- A change of the promises of the task `f` alone, while it has its turn. -/
theorem Chain.turn (h : Chain s f) (hlt : f < s.submitted.length)
    (realm : QueueRealm V E)
    (hrealm : ∀ q, q ≠ .result f → q ≠ .task f → realm.promise q = s.realm.promise q)
    (executing : Option (ℕ × Name)) (more : List Call) :
    Chain { s with realm := realm, executing := executing, calls := s.calls ++ more } f :=
  h.frame rfl rfl (fun _ => hrealm _ Name.noConfusion Name.noConfusion)
    (fun i hi => hrealm _ (by simp; omega) Name.noConfusion) (fun heq => absurd heq hlt.ne)
    (fun i hi => hrealm _ Name.noConfusion (by simp; omega)) le_rfl le_rfl
    fun _ hcall => List.mem_append_left _ hcall

section Turn

variable {handler : Handler} {stale : Prop} {jobs : List (QueueJob V E)}
  {executing : Option (ℕ × Name)} {result own : QueuePromise V E}
  {calls : List Call} {task : ℕ} {derived : Name}

theorem Phase.executing_eq
    (h : Phase f handler stale jobs (some (task, derived)) result own calls) :
    task = f ∧ derived = .result f ∧ jobs = [] ∧ result = awaited f ∧ Live f calls own := by
  cases h with
  | called live => exact ⟨rfl, rfl, rfl, rfl, live⟩

theorem Live.of_running (h : Live f calls own) (hrunning : Running calls task) :
    task = f ∧ Open calls f ∧ own = .pending [] := by
  rcases h with ⟨hopen, hown⟩ | ⟨hclosed, -⟩
  · exact ⟨hopen.running_iff.mp hrunning, hopen, hown⟩
  · exact absurd hrunning hclosed.not_running

theorem Open.live_ended (h : Open calls f) (outcome : Outcome V E) :
    Live f (calls ++ [.ended f]) (.settled outcome) :=
  .inr ⟨h.ended.1, h.ended.2, outcome, rfl⟩

/-- When the promise of the task that runs is settled, that task has its turn. -/
theorem Phase.settles (h : Phase f handler stale jobs executing result own calls)
    (hrunning : Running calls task) (outcome : Outcome V E) :
    task = f ∧ ∃ reactions, own = .pending reactions ∧
      Phase f handler stale
        (jobs ++ reactions.map fun reaction => .react reaction outcome) executing
        result (.settled outcome) (calls ++ [.ended f]) := by
  cases h with
  | ready log => exact absurd hrunning log.not_running
  | called live =>
    obtain ⟨rfl, hopen, rfl⟩ := live.of_running hrunning
    exact ⟨rfl, [], rfl, .called (hopen.live_ended outcome)⟩
  | returned live =>
    obtain ⟨rfl, hopen, rfl⟩ := live.of_running hrunning
    exact ⟨rfl, [], rfl, .returned (hopen.live_ended outcome)⟩
  | running log =>
    exact ⟨log.running_iff.mp hrunning, [.adopt (.result f)], rfl,
      .adopting log.ended.1 log.ended.2⟩
  | adopting log called => exact absurd hrunning log.not_running
  | resolved log passed => exact absurd hrunning log.not_running

end Turn

theorem Inv.returns (h : Inv s) {task : ℕ} {derived : Name}
    (hexecuting : s.executing = some (task, derived)) :
    Inv { s with executing := none, realm := s.realm.follow derived (.task task) } := by
  obtain ⟨f, hchain, ⟨-, hidle⟩ | ⟨hlt, hphase⟩⟩ := h
  · rw [hidle.executing] at hexecuting
    cases hexecuting
  · rw [State.InPhase, hexecuting] at hphase
    obtain ⟨rfl, rfl, hjobs, hresult, hlive⟩ := hphase.executing_eq
    refine ⟨task, ?_, .inr ⟨hlt, ?_⟩⟩
    · have hturn := hchain.turn hlt (s.realm.follow (.result task) (.task task))
        (fun _ _ _ => rfl) none []
      rwa [List.append_nil] at hturn
    · simp only [State.InPhase, Realm.follow, Realm.push_promise, Realm.push_jobs]
      rw [hjobs, hresult]
      exact .returned hlive

theorem Inv.throws (h : Inv s) {task : ℕ} {derived : Name} (error : E)
    (hexecuting : s.executing = some (task, derived)) (hrunning : Running s.calls task) :
    Inv { s with
      executing := none
      realm := s.realm.settle derived (.rejected (.task error))
      calls := s.calls ++ [.ended task] } := by
  obtain ⟨f, hchain, ⟨-, hidle⟩ | ⟨hlt, hphase⟩⟩ := h
  · exact absurd hrunning hidle.log.not_running
  · rw [State.InPhase, hexecuting] at hphase
    obtain ⟨rfl, rfl, hjobs, hresult, hlive⟩ := hphase.executing_eq
    obtain ⟨-, hopen, -⟩ := hlive.of_running hrunning
    obtain ⟨hclosed, hcalled⟩ := hopen.ended
    refine ⟨task, hchain.turn hlt _ (fun q hq _ => Realm.settle_promise_of_ne hq) none _,
      .inr ⟨hlt, ?_⟩⟩
    simp only [State.InPhase]
    rw [Realm.settle_of_pending hresult, Realm.push_promise, Realm.set_promise_self,
      Realm.push_jobs, Realm.set_jobs, hjobs]
    exact .resolved hclosed (.inl hcalled)

theorem Inv.settles (h : Inv s) {task : ℕ} (outcome : Outcome V E)
    (hrunning : Running s.calls task) :
    Inv { s with
      realm := s.realm.settle (.task task) outcome
      calls := s.calls ++ [.ended task] } := by
  obtain ⟨f, hchain, ⟨-, hidle⟩ | ⟨hlt, hphase⟩⟩ := h
  · exact absurd hrunning hidle.log.not_running
  · obtain ⟨rfl, reactions, hown, hnext⟩ := Phase.settles hphase hrunning outcome
    refine ⟨task, hchain.turn hlt _ (fun q _ hq => Realm.settle_promise_of_ne hq) s.executing _,
      .inr ⟨hlt, ?_⟩⟩
    simp only [State.InPhase]
    rw [Realm.settle_of_pending hown, Realm.push_promise, Realm.set_promise_self,
      Realm.set_promise_of_ne Name.noConfusion, Realm.push_jobs, Realm.set_jobs]
    exact hnext

theorem Phase.job_cases {handler : Handler} {stale : Prop}
    {job : QueueJob V E}
    {rest : List (QueueJob V E)}
    {result own : QueuePromise V E} {calls : List Call}
    (h : Phase f handler stale (job :: rest) none result own calls) :
    rest = [] ∧
      ((job = .react (.handle handler (.result f)) (.fulfilled none) ∧ result = awaited f ∧
          own = .pending [] ∧ Closed calls f) ∨
        (job = .follow (.result f) (.task f) ∧ result = awaited f ∧ Live f calls own) ∨
        (∃ outcome, job = .react (.adopt (.result f)) outcome ∧ result = awaited f ∧
          Closed calls (f + 1) ∧ .called f ∈ calls) ∨
        ∃ outcome, job = .react (.handle .ignore (.tail (f + 1))) outcome ∧
          Closed calls (f + 1) ∧ (.called f ∈ calls ∨ stale)) := by
  cases h with
  | ready log => exact ⟨rfl, .inl ⟨rfl, rfl, rfl, log⟩⟩
  | returned live => exact ⟨rfl, .inr (.inl ⟨rfl, rfl, live⟩)⟩
  | adopting log called => exact ⟨rfl, .inr (.inr (.inl ⟨_, rfl, rfl, log, called⟩))⟩
  | resolved log passed => exact ⟨rfl, .inr (.inr (.inr ⟨_, rfl, log, passed⟩))⟩

theorem Phase.log {handler : Handler} {stale : Prop}
    {jobs : List (QueueJob V E)} {executing : Option (ℕ × Name)}
    {result own : QueuePromise V E} {calls : List Call}
    (h : Phase f handler stale jobs executing result own calls) :
    Closed calls (f + 1) ∨ Open calls f := by
  have hlive (live : Live f calls own) : Closed calls (f + 1) ∨ Open calls f :=
    live.elim (fun h => .inr h.1) fun h => .inl h.1
  cases h with
  | ready log => exact .inl (log.mono (Nat.le_succ f))
  | called live => exact hlive live
  | returned live => exact hlive live
  | running log => exact .inr log
  | adopting log called => exact .inl log
  | resolved log passed => exact .inl log

theorem Phase.log_of_waits {handler : Handler} {stale : Prop}
    {result own : QueuePromise V E} {calls : List Call}
    (h : Phase f handler stale [] none result own calls) : Open calls f := by
  cases h with
  | running log => exact log

/-- How many jobs of a task are ahead, from one on. -/
def jobRank : QueueJob V E → ℕ
  | .follow _ _ => 3
  | .react (.handle (.run _ _ _) _) _ => 2
  | .react (.adopt _) _ => 2
  | .react (.handle .ignore _) _ => 1

/-- How many jobs are ahead, when no other task is called. -/
def weight (s : State V E) (f : ℕ) : ℕ :=
  4 * (s.submitted.length - f) + (s.realm.jobs.map jobRank).sum

theorem InvAt.resolve (h : Chain s f) (hlt : f < s.submitted.length)
    {realm : QueueRealm V E} (hpromise : realm.promise = s.realm.promise)
    (hjobs : realm.jobs = []) (hexecuting : s.executing = none)
    (hresult : s.realm.promise (.result f) = awaited f) (outcome : Outcome V E)
    (hlog : Closed s.calls (f + 1)) (hpassed : .called f ∈ s.calls ∨ s.Stale f) :
    InvAt { s with realm := realm.settle (.result f) outcome } f ∧
      weight { s with realm := realm.settle (.result f) outcome } f =
        4 * (s.submitted.length - f) + 1 := by
  have hpending : realm.promise (.result f) = awaited f := hpromise ▸ hresult
  have hother (q : Name) (hq : q ≠ .result f) :
      (realm.settle (.result f) outcome).promise q = s.realm.promise q :=
    (Realm.settle_promise_of_ne hq).trans (congrFun hpromise q)
  have hnext : (realm.settle (.result f) outcome).jobs =
      [.react (.handle .ignore (.tail (f + 1))) outcome] := by
    rw [Realm.settle_of_pending hpending, Realm.push_jobs, Realm.set_jobs, hjobs]
    rfl
  refine ⟨⟨?_, .inr ⟨hlt, ?_⟩⟩, ?_⟩
  · have hturn := h.turn hlt (realm.settle (.result f) outcome) (fun q hq _ => hother q hq)
      s.executing []
    rwa [List.append_nil] at hturn
  · simp only [State.InPhase]
    rw [hnext, hexecuting, Realm.settle_of_pending hpending, Realm.push_promise,
      Realm.set_promise_self]
    exact .resolved hlog hpassed
  · simp only [weight]
    rw [hnext]
    rfl

/-- The turn of a task is over: the next one has its turn, or all is done. -/
theorem InvAt.advance (h : Chain s f) (hlt : f < s.submitted.length)
    {realm : QueueRealm V E} (hpromise : realm.promise = s.realm.promise)
    (hjobs : realm.jobs = []) (hexecuting : s.executing = none)
    (hlog : Closed s.calls (f + 1)) (hpassed : .called f ∈ s.calls ∨ s.Stale f) :
    InvAt { s with realm := realm.settle (.tail (f + 1)) (.fulfilled none) } (f + 1) ∧
      weight { s with realm := realm.settle (.tail (f + 1)) (.fulfilled none) } (f + 1) ≤
        4 * (s.submitted.length - (f + 1)) + 2 := by
  have hother (q : Name) (hq : q ≠ .tail (f + 1)) :
      (realm.settle (.tail (f + 1)) (.fulfilled none)).promise q = s.realm.promise q :=
    (Realm.settle_promise_of_ne hq).trans (congrFun hpromise q)
  have hchain : ∀ {reactions}, s.realm.promise (.tail (f + 1)) = .pending reactions →
      Chain { s with realm := realm.settle (.tail (f + 1)) (.fulfilled none) } (f + 1) := by
    intro reactions hpending
    have hsettled : (realm.settle (.tail (f + 1)) (.fulfilled none)).promise (.tail (f + 1)) =
        .settled (.fulfilled none) := by
      rw [Realm.settle_of_pending (hpromise ▸ hpending), Realm.push_promise, Realm.set_promise_self]
    constructor
    case front_le => exact hlt
    case tail_eq => exact h.tail_eq
    case settled =>
      intro i hi
      rcases Nat.lt_or_eq_of_le hi with hi | rfl
      · exact (hother _ (by simp; omega)).trans (h.settled i (Nat.le_of_lt_succ hi))
      · exact hsettled
    case waiting =>
      exact fun i hi hlt => (hother _ (by simp; omega)).trans (h.waiting i (by omega) hlt)
    case last =>
      intro hmore
      have hmore : f + 1 < s.submitted.length := hmore
      exact (hother _ (by simp; omega)).trans (h.last hlt)
    case results =>
      exact fun i hi hlt => (hother _ Name.noConfusion).trans (h.results i (by omega) hlt)
    case freshTail =>
      intro i hi
      have hi : s.submitted.length < i := hi
      exact (hother _ (by simp; omega)).trans (h.freshTail i hi)
    case freshResult => exact fun i hi => (hother _ Name.noConfusion).trans (h.freshResult i hi)
    case freshTask =>
      exact fun i hi => (hother _ Name.noConfusion).trans (h.freshTask i (by omega))
    case captured_le => exact h.captured_le
    case passed =>
      intro i hi
      rcases Nat.lt_or_eq_of_le (Nat.le_of_lt_succ hi) with hi | rfl
      · exact h.passed i hi
      · exact hpassed
  rcases Nat.lt_or_eq_of_le (Nat.succ_le_of_lt hlt) with hmore | hdone
  · have hpending := h.waiting (f + 1) (Nat.lt_succ_self f) hmore
    have hnext : (realm.settle (.tail (f + 1)) (.fulfilled none)).jobs =
        [.react (.handle (s.runOf (f + 1)) (.result (f + 1))) (.fulfilled none)] := by
      rw [Realm.settle_of_pending (hpromise ▸ hpending), Realm.push_jobs, Realm.set_jobs, hjobs]
      rfl
    refine ⟨⟨hchain hpending, .inr ⟨hmore, ?_⟩⟩, ?_⟩
    · simp only [State.InPhase]
      rw [hnext, hexecuting, hother _ Name.noConfusion, hother _ Name.noConfusion,
        h.results _ (Nat.lt_succ_self f) hmore, h.freshTask _ (Nat.lt_succ_self f)]
      exact .ready hlog
    · simp only [weight]
      rw [hnext]
      exact le_rfl
  · have hpending := h.last hlt
    rw [← hdone] at hpending
    have hnext : (realm.settle (.tail (f + 1)) (.fulfilled none)).jobs = [] := by
      rw [Realm.settle_of_pending (hpromise ▸ hpending), Realm.push_jobs, Realm.set_jobs, hjobs]
      rfl
    refine ⟨⟨hchain hpending, .inl ⟨hdone, ⟨hnext, hexecuting, ?_, hdone ▸ hlog⟩⟩⟩, ?_⟩
    · exact (hother _ Name.noConfusion).trans (h.freshTask _ hlt)
    · simp only [weight]
      rw [hnext]
      exact Nat.le_add_right _ _

/-- A job keeps the invariant, and fewer are ahead unless none is left. -/
theorem InvAt.job (h : InvAt s f) {job : QueueJob V E}
    (hexecuting : s.executing = none) {realm : QueueRealm V E}
    (hjobs : s.realm.jobs = job :: realm.jobs) (hpromise : realm.promise = s.realm.promise) :
    ∃ g, InvAt (perform { s with realm := realm } job) g ∧
      ((perform { s with realm := realm } job).realm.jobs = [] ∨
        (perform { s with realm := realm } job).executing = none ∧
          weight (perform { s with realm := realm } job) g < weight s f) := by
  obtain ⟨hchain, ⟨-, hidle⟩ | ⟨hlt, hphase⟩⟩ := h
  · rw [hidle.jobs] at hjobs
    cases hjobs
  have hweight : weight s f =
      4 * (s.submitted.length - f) + (jobRank job + (realm.jobs.map jobRank).sum) := by
    rw [weight, hjobs]
    rfl
  rw [State.InPhase, hjobs, hexecuting] at hphase
  obtain ⟨hrest, ⟨rfl, hresult, hown, hlog⟩ | ⟨rfl, hresult, hlive⟩ |
    ⟨outcome, rfl, hresult, hlog, hcalled⟩ | ⟨outcome, rfl, hlog, hpassed⟩⟩ := hphase.job_cases
  all_goals rw [hrest] at hweight
  · -- `run`
    change weight s f = 4 * (s.submitted.length - f) + 2 at hweight
    by_cases hstale : s.Stale f
    · have hrun : (s.captured f).1 ≠ s.generation ∨ (s.captured f).2 ≠ s.globalGeneration := by
        by_contra hboth
        rw [not_or, not_not, not_not] at hboth
        exact hstale (Prod.ext hboth.1 hboth.2)
      have hperform : perform { s with realm := realm }
          (.react (.handle (s.runOf f) (.result f)) (.fulfilled none)) =
            { s with realm := realm.settle (.result f) (.rejected .asyncQueueInvalidatedError) } :=
        if_pos hrun
      obtain ⟨hinv, hnext⟩ := InvAt.resolve hchain hlt hpromise hrest hexecuting hresult
        (.rejected .asyncQueueInvalidatedError) (hlog.mono (Nat.le_succ f)) (.inr hstale)
      rw [hperform]
      exact ⟨f, hinv, .inr ⟨hexecuting, by omega⟩⟩
    · have hcurrent : s.captured f = (s.generation, s.globalGeneration) := not_not.mp hstale
      have hperform : perform { s with realm := realm }
          (.react (.handle (s.runOf f) (.result f)) (.fulfilled none)) =
            { s with
              realm := realm
              executing := some (f, .result f)
              calls := s.calls ++ [.called f] } := by
        refine if_neg ?_
        rw [not_or, not_not, not_not, hcurrent]
        exact ⟨rfl, rfl⟩
      rw [hperform]
      refine ⟨f, ⟨hchain.turn hlt _ (fun q _ _ => congrFun hpromise q) _ _, .inr ⟨hlt, ?_⟩⟩,
        .inl hrest⟩
      simp only [State.InPhase]
      rw [hpromise, hrest, hresult, hown]
      exact .called (.inl ⟨hlog.called, rfl⟩)
  · -- the promise of the task is asked for its settlement
    change weight s f = 4 * (s.submitted.length - f) + 3 at hweight
    have hturn (realm : QueueRealm V E)
        (hrealm : ∀ q, q ≠ .task f → realm.promise q = s.realm.promise q) :
        Chain { s with realm := realm } f := by
      have hturn := hchain.turn hlt realm (fun q _ hq => hrealm q hq) s.executing []
      rwa [List.append_nil] at hturn
    simp only [perform]
    rcases hlive with ⟨hopen, hown⟩ | ⟨hclosed, hcalled, outcome, hown⟩
    · rw [← hpromise] at hown
      rw [Realm.register_of_pending hown]
      refine ⟨f, ⟨hturn _ fun q hq => ?_, .inr ⟨hlt, ?_⟩⟩, .inl hrest⟩
      · rw [Realm.set_promise_of_ne hq, hpromise]
      · simp only [State.InPhase, Realm.set_jobs]
        rw [Realm.set_promise_self, Realm.set_promise_of_ne Name.noConfusion, hpromise, hresult,
          hexecuting, hrest]
        exact .running hopen
    · rw [← hpromise] at hown
      rw [Realm.register_of_settled hown]
      refine ⟨f, ⟨hturn _ fun q _ => congrFun hpromise q, .inr ⟨hlt, ?_⟩⟩,
        .inr ⟨hexecuting, ?_⟩⟩
      · simp only [State.InPhase, Realm.push_promise, Realm.push_jobs]
        rw [hpromise, hresult, hexecuting, hrest]
        exact .adopting hclosed hcalled
      · rw [hweight, weight, Realm.push_jobs, hrest]
        exact Nat.lt_succ_self _
  · -- the result is settled as the promise of the task
    change weight s f = 4 * (s.submitted.length - f) + 2 at hweight
    obtain ⟨hinv, hnext⟩ := InvAt.resolve hchain hlt hpromise hrest hexecuting hresult outcome hlog
      (.inl hcalled)
    refine ⟨f, hinv, .inr ⟨hexecuting, ?_⟩⟩
    simp only [perform]
    omega
  · -- the tail is settled
    change weight s f = 4 * (s.submitted.length - f) + 1 at hweight
    obtain ⟨hinv, hnext⟩ := InvAt.advance hchain hlt hpromise hrest hexecuting hlog hpassed
    refine ⟨f + 1, hinv, .inr ⟨hexecuting, ?_⟩⟩
    simp only [perform]
    omega

/-- A job leaves the generations and what was submitted. -/
theorem perform_same (s : State V E) (job : QueueJob V E) :
    (perform s job).submitted = s.submitted ∧ (perform s job).generation = s.generation ∧
      (perform s job).globalGeneration = s.globalGeneration := by
  unfold perform
  split
  · unfold run
    split_ifs <;> exact ⟨rfl, rfl, rfl⟩
  all_goals exact ⟨rfl, rfl, rfl⟩

theorem step_job : step s .job = some s' ↔
    s.executing = none ∧ ∃ job realm, s.realm.jobs = job :: realm.jobs ∧
      realm.promise = s.realm.promise ∧ s' = perform { s with realm := realm } job := by
  unfold step
  constructor
  · intro h
    dsimp only at h
    split at h
    · cases h
    case h_2 hexecuting =>
      obtain ⟨⟨job, realm⟩, htake, rfl⟩ := Option.map_eq_some_iff.mp h
      obtain ⟨hjobs, hpromise⟩ := Realm.takeJob_eq_some_iff.mp htake
      exact ⟨hexecuting, job, realm, hjobs, hpromise, rfl⟩
  · rintro ⟨hexecuting, job, realm, hjobs, hpromise, rfl⟩
    dsimp only
    split
    case h_1 executing hsome =>
      rw [hexecuting] at hsome
      cases hsome
    · rw [Realm.takeJob_eq_some_iff.mpr ⟨hjobs, hpromise⟩]
      rfl

theorem Inv.step (h : Inv s) {event : Event V E} (hstep : step s event = some s') : Inv s' := by
  cases event with
  | enqueue =>
    obtain rfl := Option.some.inj hstep
    exact h.enqueue
  | invalidate =>
    obtain rfl := Option.some.inj hstep
    exact h.generations (Nat.le_succ _) le_rfl
  | invalidateAsyncQueues =>
    obtain rfl := Option.some.inj hstep
    exact h.generations le_rfl (Nat.le_succ _)
  | job =>
    obtain ⟨hexecuting, job, realm, hjobs, hpromise, rfl⟩ := step_job.mp hstep
    obtain ⟨f, hf⟩ := h
    obtain ⟨g, hg, -⟩ := hf.job hexecuting hjobs hpromise
    exact ⟨g, hg⟩
  | returns =>
    obtain ⟨⟨task, derived⟩, hexecuting, rfl⟩ := Option.map_eq_some_iff.mp hstep
    exact h.returns hexecuting
  | throws error =>
    obtain ⟨⟨task, derived⟩, hexecuting, hthrows⟩ := Option.bind_eq_some_iff.mp hstep
    obtain ⟨hrunning, heq⟩ := Option.ite_none_right_eq_some.mp hthrows
    obtain rfl := Option.some.inj heq
    exact h.throws error hexecuting hrunning
  | settles task outcome =>
    obtain ⟨hrunning, heq⟩ := Option.ite_none_right_eq_some.mp hstep
    obtain rfl := Option.some.inj heq
    exact h.settles (outcomeOf outcome) hrunning

/-- What an event may do to the generations and to what was submitted. -/
theorem step_submitted {event : Event V E} (hstep : step s event = some s') :
    (∃ more, s'.submitted = s.submitted ++ more) ∧ s.generation ≤ s'.generation ∧
      s.globalGeneration ≤ s'.globalGeneration := by
  have hsame : s'.submitted = s.submitted → s'.generation = s.generation →
      s'.globalGeneration = s.globalGeneration → (∃ more, s'.submitted = s.submitted ++ more) ∧
        s.generation ≤ s'.generation ∧ s.globalGeneration ≤ s'.globalGeneration :=
    fun h₁ h₂ h₃ => ⟨⟨[], by rw [h₁, List.append_nil]⟩, h₂.ge, h₃.ge⟩
  cases event with
  | enqueue =>
    obtain rfl := Option.some.inj hstep
    exact ⟨⟨_, rfl⟩, le_rfl, le_rfl⟩
  | invalidate =>
    obtain rfl := Option.some.inj hstep
    exact ⟨⟨[], (List.append_nil _).symm⟩, Nat.le_succ _, le_rfl⟩
  | invalidateAsyncQueues =>
    obtain rfl := Option.some.inj hstep
    exact ⟨⟨[], (List.append_nil _).symm⟩, le_rfl, Nat.le_succ _⟩
  | job =>
    obtain ⟨-, job, realm, -, -, rfl⟩ := step_job.mp hstep
    obtain ⟨hsubmitted, hgeneration, hglobal⟩ := perform_same { s with realm := realm } job
    exact hsame hsubmitted hgeneration hglobal
  | returns =>
    obtain ⟨executing, -, rfl⟩ := Option.map_eq_some_iff.mp hstep
    exact hsame rfl rfl rfl
  | throws error =>
    obtain ⟨executing, -, hthrows⟩ := Option.bind_eq_some_iff.mp hstep
    obtain ⟨-, heq⟩ := Option.ite_none_right_eq_some.mp hthrows
    obtain rfl := Option.some.inj heq
    exact hsame rfl rfl rfl
  | settles task outcome =>
    obtain ⟨-, heq⟩ := Option.ite_none_right_eq_some.mp hstep
    obtain rfl := Option.some.inj heq
    exact hsame rfl rfl rfl

/-- A task is called by its `run` alone, when nothing was invalidated. -/
theorem Inv.called_of_step (h : Inv s) {event : Event V E}
    (hstep : AsyncQueue.step s event = some s')
    {task : ℕ} (hcalled : .called task ∈ s'.calls) : .called task ∈ s.calls ∨ ¬ s.Stale task := by
  have hended {f : ℕ} (h : Call.called task ∈ s.calls ++ [.ended f]) : .called task ∈ s.calls := by
    rcases List.mem_append.mp h with hin | hlast
    · exact hin
    · exact Call.noConfusion (List.mem_singleton.mp hlast)
  cases event with
  | enqueue | invalidate | invalidateAsyncQueues =>
    obtain rfl := Option.some.inj hstep
    exact .inl hcalled
  | job =>
    obtain ⟨hexecuting, job, realm, hjobs, -, rfl⟩ := step_job.mp hstep
    obtain ⟨f, -, ⟨-, hidle⟩ | ⟨-, hphase⟩⟩ := h
    · rw [hidle.jobs] at hjobs
      cases hjobs
    rw [State.InPhase, hjobs, hexecuting] at hphase
    obtain ⟨-, ⟨rfl, -⟩ | ⟨rfl, -⟩ | ⟨outcome, rfl, -⟩ | ⟨outcome, rfl, -⟩⟩ := hphase.job_cases
    · by_cases hcheck : (s.captured f).1 ≠ s.generation ∨ (s.captured f).2 ≠ s.globalGeneration
      · simp only [perform, State.runOf, run] at hcalled
        rw [if_pos hcheck] at hcalled
        exact .inl hcalled
      · simp only [perform, State.runOf, run] at hcalled
        rw [if_neg hcheck] at hcalled
        rcases List.mem_append.mp hcalled with hin | hlast
        · exact .inl hin
        · obtain rfl := Call.called.inj (List.mem_singleton.mp hlast)
          rw [not_or, not_not, not_not] at hcheck
          exact .inr fun hstale => hstale (Prod.ext hcheck.1 hcheck.2)
    · exact .inl hcalled
    · exact .inl hcalled
    · exact .inl hcalled
  | returns =>
    obtain ⟨executing, -, rfl⟩ := Option.map_eq_some_iff.mp hstep
    exact .inl hcalled
  | throws error =>
    obtain ⟨executing, -, hthrows⟩ := Option.bind_eq_some_iff.mp hstep
    obtain ⟨-, heq⟩ := Option.ite_none_right_eq_some.mp hthrows
    obtain rfl := Option.some.inj heq
    exact .inl (hended hcalled)
  | settles task outcome =>
    obtain ⟨-, heq⟩ := Option.ite_none_right_eq_some.mp hstep
    obtain rfl := Option.some.inj heq
    exact .inl (hended hcalled)

/-- A task that waits, and that was invalidated. -/
structure Refused (s : State V E) (task : ℕ) : Prop where
  submitted : task < s.submitted.length
  not_called : .called task ∉ s.calls
  stale : s.Stale task

theorem Refused.step {task : ℕ} (h : Refused s task) (hinv : Inv s) {event : Event V E}
    (hstep : AsyncQueue.step s event = some s') : Refused s' task := by
  obtain ⟨⟨more, hmore⟩, hgeneration, hglobal⟩ := step_submitted hstep
  have hcaptured : s'.captured task = s.captured task := by
    rw [State.captured, State.captured, hmore, List.getD_eq_getElem?_getD,
      List.getElem?_append_left h.submitted, ← List.getD_eq_getElem?_getD]
  obtain ⟨f, hchain, -⟩ := id hinv
  refine ⟨?_, fun hcalled => ?_, ?_⟩
  · rw [hmore, List.length_append]
    exact Nat.lt_add_right _ h.submitted
  · exact (hinv.called_of_step hstep hcalled).elim h.not_called fun hfresh => hfresh h.stale
  · exact h.stale.mono (hchain.captured_le task h.submitted) hcaptured hgeneration hglobal

/-- Invalidation refuses the tasks that have not been called. -/
theorem Inv.refused (h : Inv s) {task : ℕ} (hlt : task < s.submitted.length)
    (hcalled : .called task ∉ s.calls) {event : Event V E}
    (hevent : event = .invalidate ∨ event = .invalidateAsyncQueues)
    (hstep : AsyncQueue.step s event = some s') : Refused s' task := by
  obtain ⟨f, hchain, -⟩ := h
  obtain ⟨hgeneration, hglobal⟩ := hchain.captured_le task hlt
  rcases hevent with rfl | rfl
  all_goals
    obtain rfl := Option.some.inj hstep
    refine ⟨hlt, hcalled, fun heq => ?_⟩
  · have hsucc : (s.captured task).1 = s.generation + 1 := congrArg Prod.fst heq
    omega
  · have hsucc : (s.captured task).2 = s.globalGeneration + 1 := congrArg Prod.snd heq
    omega

/-- The calls of a queue are in order, and of tasks that were submitted. -/
theorem Inv.serial (h : Inv s) :
    Serial s.calls ∧ ∀ task, .called task ∈ s.calls → task < s.submitted.length := by
  obtain ⟨f, -, ⟨rfl, hidle⟩ | ⟨hlt, hphase⟩⟩ := h
  · exact ⟨⟨_, .inl hidle.log⟩, fun task hcalled => hidle.log.lt hcalled⟩
  · have hlog : (Closed s.calls (f + 1)) ∨ Open s.calls f := hphase.log
    refine ⟨hlog.elim (fun h => ⟨_, .inl h⟩) fun h => ⟨_, .inr h⟩, fun task hcalled => ?_⟩
    rcases hlog with hclosed | hopen
    · exact (hclosed.lt hcalled).trans_le hlt
    · obtain ⟨before, hbefore, heq⟩ := hopen
      rw [heq] at hcalled
      rcases List.mem_append.mp hcalled with hin | hlast
      · exact (hbefore.lt hin).trans hlt
      · rw [Call.called.inj (List.mem_singleton.mp hlast)]
        exact hlt

/-- When there is no job and no task at work, each task was called or refused. -/
theorem Inv.all_passed (h : Inv s) (hjobs : s.realm.jobs = []) (hexecuting : s.executing = none)
    (hrunning : ∀ task, ¬ Running s.calls task) :
    ∀ task < s.submitted.length, .called task ∈ s.calls ∨ s.Stale task := by
  obtain ⟨f, hchain, ⟨rfl, -⟩ | ⟨-, hphase⟩⟩ := h
  · exact hchain.passed
  · rw [State.InPhase, hjobs, hexecuting] at hphase
    exact absurd (hphase.log_of_waits.running_iff.mpr rfl) (hrunning f)

/-- **The jobs of a queue come to an end.** -/
theorem Inv.drains (h : Inv s) (hexecuting : s.executing = none) (globalGeneration : ℕ) :
    ∃ n s', (machine globalGeneration).runFrom s (List.replicate n .job) = some s' ∧
      s'.realm.jobs = [] := by
  obtain ⟨f, hf⟩ := h
  induction hn : weight s f using Nat.strongRecOn generalizing s f with
  | ind n ih =>
    cases hjobs : s.realm.jobs with
    | nil => exact ⟨0, s, rfl, hjobs⟩
    | cons job rest =>
      have htaken : s.realm.jobs = job :: ({ s.realm with jobs := rest } : Realm _ _ _ _).jobs :=
        hjobs
      have hstep := step_job.mpr ⟨hexecuting, job, _, htaken, rfl, rfl⟩
      obtain ⟨g, hg, hempty | ⟨hnext, hless⟩⟩ := hf.job hexecuting htaken rfl
      · refine ⟨1, _, ?_, hempty⟩
        rw [List.replicate_one, Machine.runFrom_cons]
        change (AsyncQueue.step s .job).bind _ = _
        rw [hstep]
        rfl
      · obtain ⟨m, s', hrun, hend⟩ := ih _ (hn ▸ hless) hnext g hg rfl
        refine ⟨m + 1, s', ?_, hend⟩
        rw [List.replicate_succ, Machine.runFrom_cons]
        change (AsyncQueue.step s .job).bind _ = _
        rw [hstep]
        exact hrun

end Steps

/-! ### What the queue is for -/

/-- What holds of a queue at any time: the tasks are called one at a time and in order; a task
that was not called when the queue was invalidated never is; the jobs come to an end; and when
there is none and no task is at work, whatever became of those before, each task was called or
came before an invalidation. -/
structure SerialQueue (globalGeneration : ℕ) (s : State V E) : Prop where
  serial : Serial s.calls
  running_unique : ∀ i j, Running s.calls i → Running s.calls j → i = j
  submitted : ∀ task, .called task ∈ s.calls → task < s.submitted.length
  invalidated : ∀ task < s.submitted.length, .called task ∉ s.calls →
    ∀ event, event = .invalidate ∨ event = .invalidateAsyncQueues →
      ∀ events s', (machine globalGeneration).runFrom s (event :: events) = some s' →
        .called task ∉ s'.calls
  drains : s.executing = none → ∃ n s',
    (machine globalGeneration).runFrom s (List.replicate n .job) = some s' ∧ s'.realm.jobs = []
  all_passed : s.realm.jobs = [] → s.executing = none → (∀ task, ¬ Running s.calls task) →
    ∀ task < s.submitted.length, .called task ∈ s.calls ∨ s.Stale task

theorem Inv.createAsyncQueue (globalGeneration : ℕ) :
    Inv (createAsyncQueue globalGeneration : State V E) := by
  have hfresh (q : Name) (hq : q ≠ .tail 0) :
      (AsyncQueue.createAsyncQueue globalGeneration : State V E).realm.promise q = .pending [] :=
    Realm.set_promise_of_ne hq
  have hclosed : Closed [] 0 := ⟨[], List.Pairwise.nil, fun _ h => absurd h List.not_mem_nil, rfl⟩
  refine ⟨0, ?_, .inl ⟨rfl, ⟨rfl, rfl, hfresh _ Name.noConfusion, hclosed⟩⟩⟩
  constructor
  case front_le => exact le_rfl
  case tail_eq => rfl
  case settled =>
    intro i hi
    obtain rfl := Nat.le_zero.mp hi
    exact Realm.set_promise_self
  case waiting => exact fun i _ hi => absurd hi (Nat.not_lt_zero i)
  case last => exact fun h => absurd h (Nat.lt_irrefl 0)
  case results => exact fun i _ hi => absurd hi (Nat.not_lt_zero i)
  case freshTail =>
    intro i hi
    have hi : 0 < i := hi
    exact hfresh _ (by simp; omega)
  case freshResult => exact fun i _ => hfresh _ Name.noConfusion
  case freshTask => exact fun i _ => hfresh _ Name.noConfusion
  case captured_le => exact fun i hi => absurd hi (Nat.not_lt_zero i)
  case passed => exact fun i hi => absurd hi (Nat.not_lt_zero i)

/-- **A serial queue, whatever happens.**  In every state that the calls, the jobs and the ends of
the tasks lead to, in any order, the queue is serial, an invalidation refuses all that has not
begun, and no task keeps those behind it from their turn. -/
theorem asyncQueue_serial (globalGeneration : ℕ) (events : List (Event V E)) (s : State V E)
    (hrun : (machine globalGeneration).run events = some s) : SerialQueue globalGeneration s := by
  have hstep : ∀ (s : State V E) event s', Inv s →
      (machine globalGeneration).step s event = some s' → Inv s' :=
    fun _ _ _ h hstep => h.step hstep
  have h : Inv s := Machine.run_invariant (Inv.createAsyncQueue globalGeneration) hstep hrun
  obtain ⟨hserial, hsubmitted⟩ := h.serial
  refine ⟨hserial, fun i j => hserial.running_unique, hsubmitted,
    fun task hlt hcalled event hevent events s' hrun => ?_,
    fun hexecuting => h.drains hexecuting globalGeneration, h.all_passed⟩
  obtain ⟨m, hm, hrest⟩ := Machine.runFrom_cons_eq_some _ hrun
  have hrefused := Machine.runFrom_invariant (I := fun s => Inv s ∧ Refused s task)
    (fun _ _ _ h hstep => ⟨h.1.step hstep, h.2.step h.1 hstep⟩)
    ⟨h.step hm, h.refused hlt hcalled hevent hm⟩ hrest
  exact hrefused.2.not_called

/-- A task is called, another one comes, and the first one is rejected. -/
def rejectedEvents : List (Event ℕ String) :=
  [.enqueue, .job, .enqueue, .returns, .job, .settles 0 (.rejected "e"), .job, .job, .job]

/-- The second task is called nevertheless. -/
theorem asyncQueue_serial_rejected :
    ∃ s, (machine 0).run rejectedEvents = some s ∧ s.calls = [.called 0, .ended 0, .called 1] ∧
      SerialQueue 0 s := by
  have hcalls : ((machine 0).run rejectedEvents).map State.calls =
      some [.called 0, .ended 0, .called 1] := by decide
  obtain ⟨s, hrun, hs⟩ := Option.map_eq_some_iff.mp hcalls
  exact ⟨s, hrun, hs, asyncQueue_serial 0 rejectedEvents s hrun⟩

end AsyncQueue
end Frontend
end HelmSsh
