/-
# Promises and their jobs

The part of the promises of ECMAScript that orders the work of a program: a promise is pending,
with the reactions that `then` has registered, or it is settled; a reaction of a settled promise
is a job, and the jobs run one after the other, in the order in which they came (`Realm.register`,
`Realm.settle`, `Realm.takeJob`).  A promise that is resolved with another promise first has a job
that registers with it (`Realm.follow`) and is then settled as the other one.

Promises go by names of a type of the program, and so do the handlers that are given to `then`:
what a handler does is up to the program.  All the names are there from the start, as promises
that are pending and that nobody has asked about (`Realm.fresh`).
-/

import Mathlib.Logic.Function.Basic

/-- How a promise is settled. -/
inductive Settlement (V E : Type*) where
  | fulfilled (value : V)
  | rejected (error : E)
  deriving DecidableEq

/-- What `then` registers: a handler whose outcome settles the derived promise, or a promise that is
settled in the same way. -/
inductive Reaction (ι κ : Type*) where
  | handle (handler : κ) (derived : ι)
  | adopt (derived : ι)
  deriving DecidableEq

/-- A promise: the reactions that wait for it, or how it is settled. -/
inductive Promise (ι κ V E : Type*) where
  | pending (reactions : List (Reaction ι κ))
  | settled (settlement : Settlement V E)
  deriving DecidableEq

/-- A job of the queue: a reaction to a settlement, or the registration with the promise that
another one was resolved with. -/
inductive Job (ι κ V E : Type*) where
  | react (reaction : Reaction ι κ) (settlement : Settlement V E)
  | follow (promise thenable : ι)
  deriving DecidableEq

/-- The promises and the jobs, the next one first. -/
structure Realm (ι κ V E : Type*) where
  promise : ι → Promise ι κ V E
  jobs : List (Job ι κ V E)

namespace Realm

variable {ι κ V E : Type*} [DecidableEq ι] (r : Realm ι κ V E)

/-- Only pending promises, and no jobs. -/
def fresh : Realm ι κ V E where
  promise := fun _ => .pending []
  jobs := []

/-- A promise becomes this one. -/
def set (p : ι) (promise : Promise ι κ V E) : Realm ι κ V E :=
  { r with promise := Function.update r.promise p promise }

/-- A job goes to the end of the queue. -/
def push (jobs : List (Job ι κ V E)) : Realm ι κ V E :=
  { r with jobs := r.jobs ++ jobs }

/-- `then`: a reaction waits for a pending promise, and it is a job when the promise is settled. -/
def register (p : ι) (reaction : Reaction ι κ) : Realm ι κ V E :=
  match r.promise p with
  | .pending reactions => r.set p (.pending (reactions ++ [reaction]))
  | .settled settlement => r.push [.react reaction settlement]

/-- A pending promise is settled, and its reactions are jobs now. -/
def settle (p : ι) (settlement : Settlement V E) : Realm ι κ V E :=
  match r.promise p with
  | .pending reactions =>
    (r.set p (.settled settlement)).push (reactions.map fun reaction => .react reaction settlement)
  | .settled _ => r

/-- A promise is resolved with another one. -/
def follow (p thenable : ι) : Realm ι κ V E :=
  r.push [.follow p thenable]

/-- The next job, and the realm without it. -/
def takeJob : Option (Job ι κ V E × Realm ι κ V E) :=
  match r.jobs with
  | [] => none
  | job :: rest => some (job, { r with jobs := rest })

variable {r} {p q : ι} {reactions : List (Reaction ι κ)} {reaction : Reaction ι κ}
  {settlement settlement' : Settlement V E} {promise : Promise ι κ V E}

@[simp] theorem set_promise_self : (r.set p promise).promise p = promise :=
  Function.update_self ..

theorem set_promise_of_ne (h : q ≠ p) : (r.set p promise).promise q = r.promise q :=
  Function.update_of_ne h ..

@[simp] theorem set_jobs : (r.set p promise).jobs = r.jobs := rfl

omit [DecidableEq ι] in
@[simp] theorem push_promise (jobs : List (Job ι κ V E)) : (r.push jobs).promise = r.promise := rfl

omit [DecidableEq ι] in
@[simp] theorem push_jobs (jobs : List (Job ι κ V E)) : (r.push jobs).jobs = r.jobs ++ jobs := rfl

theorem register_of_pending (h : r.promise p = .pending reactions) :
    r.register p reaction = r.set p (.pending (reactions ++ [reaction])) := by
  rw [register, h]

theorem register_of_settled (h : r.promise p = .settled settlement) :
    r.register p reaction = r.push [.react reaction settlement] := by
  rw [register, h]

theorem register_promise_of_ne (h : q ≠ p) :
    (r.register p reaction).promise q = r.promise q := by
  unfold register
  cases r.promise p with
  | pending reactions => exact set_promise_of_ne h
  | settled settlement => rfl

theorem settle_of_pending (h : r.promise p = .pending reactions) :
    r.settle p settlement = (r.set p (.settled settlement)).push
      (reactions.map fun reaction => .react reaction settlement) := by
  rw [settle, h]

theorem settle_promise_of_ne (h : q ≠ p) :
    (r.settle p settlement).promise q = r.promise q := by
  unfold settle
  cases r.promise p with
  | pending reactions => exact set_promise_of_ne h
  | settled settlement => rfl

omit [DecidableEq ι] in
/-- Taking a job leaves the promises and the other jobs. -/
theorem takeJob_eq_some_iff {job : Job ι κ V E} {r' : Realm ι κ V E} :
    r.takeJob = some (job, r') ↔ r.jobs = job :: r'.jobs ∧ r'.promise = r.promise := by
  obtain ⟨promises, jobs⟩ := r
  obtain ⟨promises', rest⟩ := r'
  cases jobs with
  | nil => simp [takeJob]
  | cons first jobs =>
    simp only [takeJob, Option.some.injEq, Prod.mk.injEq, Realm.mk.injEq, List.cons.injEq]
    constructor
    · rintro ⟨rfl, rfl, rfl⟩
      exact ⟨⟨rfl, rfl⟩, rfl⟩
    · rintro ⟨⟨rfl, rfl⟩, rfl⟩
      exact ⟨rfl, rfl, rfl⟩

end Realm
