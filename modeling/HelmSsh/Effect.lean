/-
# Fallible operations on a state

An operation that returns `Result` and works on a state in place: when it fails, what it
had changed until then stays changed.  `Effect` is the function from the state before to
the outcome and the state after, and a monad, so that a function of the source keeps its
order of steps and its early returns.

`Post m s ok err` says what holds after `m` from `s`, for a success and for a failure.
The rules follow the shape of the operation: `Post.bind` for a step and the rest,
`Post.ofExcept` for a step that only computes, `Post.onError` for a cleanup,
`Post.handle` and `Post.ignore` for failures that are not passed on, `Post.within` for a
part of the state, and `Post.mono` to weaken.
-/

import Mathlib.Tactic.Common

/-- An operation that changes a state and fails or succeeds. -/
def Effect (ε σ α : Type) : Type :=
  σ → Except ε α × σ

namespace Effect

variable {ε σ τ α β : Type}

instance : Monad (Effect ε σ) where
  pure a := fun s => (.ok a, s)
  bind m f := fun s =>
    match m s with
    | (.ok a, s') => f a s'
    | (.error e, s') => (.error e, s')

/-- A computation that does not touch the state. -/
def ofExcept (x : Except ε α) : Effect ε σ α :=
  fun s => (x, s)

/-- The state, or a part of it. -/
def gets (f : σ → α) : Effect ε σ α :=
  fun s => (.ok (f s), s)

/-- A change of the state. -/
def modify (f : σ → σ) : Effect ε σ Unit :=
  fun s => (.ok (), f s)

/-- The operation with a cleanup, whose own outcome is ignored, after a failure. -/
def onError (m : Effect ε σ α) (cleanup : Effect ε σ Unit) : Effect ε σ α :=
  fun s =>
    match m s with
    | (.ok a, s') => (.ok a, s')
    | (.error e, s') => (.error e, (cleanup s').2)

/-- The operation with some of its failures taken for a result. -/
def handle (m : Effect ε σ α) (f : ε → Except ε α) : Effect ε σ α :=
  fun s =>
    match m s with
    | (.ok a, s') => (.ok a, s')
    | (.error e, s') => (f e, s')

/-- The operation when nothing depends on its outcome. -/
def ignore (m : Effect ε σ α) : Effect ε σ Unit :=
  fun s => (.ok (), (m s).2)

/-- The operation on a part of a larger state. -/
def within (get : τ → σ) (set : σ → τ → τ) (m : Effect ε σ α) : Effect ε τ α :=
  fun t => ((m (get t)).1, set (m (get t)).2 t)

theorem ofExcept_ok {x : Except ε α} {a : α} {s : σ} (h : x = .ok a) :
    ofExcept x s = (.ok a, s) := by
  rw [h]
  rfl

theorem bind_ok {m : Effect ε σ α} {f : α → Effect ε σ β} {s s' : σ} {a : α}
    (h : m s = (.ok a, s')) : (m >>= f) s = f a s' := by
  show (match m s with
    | (.ok a, s') => f a s'
    | (.error e, s') => (.error e, s')) = f a s'
  rw [h]

theorem bind_error {m : Effect ε σ α} {f : α → Effect ε σ β} {s s' : σ} {e : ε}
    (h : m s = (.error e, s')) : (m >>= f) s = (.error e, s') := by
  show (match m s with
    | (.ok a, s') => f a s'
    | (.error e, s') => (.error e, s')) = (.error e, s')
  rw [h]

/-- What holds after the operation: `ok` of a result and the state then, `err` of an
error and the state then. -/
def Post (m : Effect ε σ α) (s : σ) (ok : α → σ → Prop) (err : ε → σ → Prop) : Prop :=
  match (m s).1 with
  | .ok a => ok a (m s).2
  | .error e => err e (m s).2

section Rules

variable {m : Effect ε σ α} {s : σ} {ok : α → σ → Prop} {err : ε → σ → Prop}

theorem Post.of_ok {a : α} {s' : σ} (h : m.Post s ok err) (hm : m s = (.ok a, s')) : ok a s' := by
  rw [Post, hm] at h
  exact h

theorem Post.of_error {e : ε} {s' : σ} (h : m.Post s ok err) (hm : m s = (.error e, s')) :
    err e s' := by
  rw [Post, hm] at h
  exact h

theorem Post.of_eq {a : α} {s' : σ} (hm : m s = (.ok a, s')) (h : ok a s') : m.Post s ok err := by
  rw [Post, hm]
  exact h

theorem Post.intro (hok : ∀ a s', m s = (.ok a, s') → ok a s')
    (herr : ∀ e s', m s = (.error e, s') → err e s') : m.Post s ok err := by
  rw [Post]
  obtain ⟨r, s', hm⟩ : ∃ r s', m s = (r, s') := ⟨_, _, rfl⟩
  rw [hm]
  cases r with
  | ok a => exact hok a s' hm
  | error e => exact herr e s' hm

theorem Post.after {P : σ → Prop} (h : m.Post s (fun _ => P) fun _ => P) : P (m s).2 := by
  obtain ⟨r, s', hm⟩ : ∃ r s', m s = (r, s') := ⟨_, _, rfl⟩
  rw [hm]
  cases r with
  | ok a => exact h.of_ok hm
  | error e => exact h.of_error hm

theorem Post.mono {ok' : α → σ → Prop} {err' : ε → σ → Prop} (h : m.Post s ok err)
    (hok : ∀ a t, ok a t → ok' a t) (herr : ∀ e t, err e t → err' e t) : m.Post s ok' err' :=
  .intro (fun a t hm => hok a t (h.of_ok hm)) fun e t hm => herr e t (h.of_error hm)

theorem Post.pure {a : α} (h : ok a s) : Post (Pure.pure a : Effect ε σ α) s ok err := h

theorem Post.gets {f : σ → α} (h : ok (f s) s) : Post (Effect.gets f) s ok err := h

theorem Post.modify {f : σ → σ} {ok : Unit → σ → Prop} {err : ε → σ → Prop} (h : ok () (f s)) :
    Post (Effect.modify f) s ok err := h

/-- **The rule of sequence.**  A step, and then the rest from each state it may lead to. -/
theorem Post.bind {f : α → Effect ε σ β} {ok : β → σ → Prop}
    (h : m.Post s (fun a t => (f a).Post t ok err) err) : (m >>= f).Post s ok err := by
  obtain ⟨r, t, hm⟩ : ∃ r t, m s = (r, t) := ⟨_, _, rfl⟩
  cases r with
  | ok a =>
    rw [Post, bind_ok hm]
    exact h.of_ok hm
  | error e =>
    rw [Post, bind_error hm]
    exact h.of_error hm

theorem Post.ofExcept {x : Except ε α} (hok : ∀ a, x = .ok a → ok a s)
    (herr : ∀ e, x = .error e → err e s) : Post (Effect.ofExcept x) s ok err := by
  cases x with
  | ok a => exact hok a rfl
  | error e => exact herr e rfl

theorem Post.ofEqOk {x : Except ε α} {a : α} (hx : x = .ok a) (h : ok a s) :
    Post (Effect.ofExcept x) s ok err := by
  rw [hx]
  exact h

theorem Post.onError {cleanup : Effect ε σ Unit}
    (h : m.Post s ok fun e t => err e (cleanup t).2) : (m.onError cleanup).Post s ok err := by
  obtain ⟨r, t, hm⟩ : ∃ r t, m s = (r, t) := ⟨_, _, rfl⟩
  rw [Post, Effect.onError, hm]
  cases r with
  | ok a => exact h.of_ok hm
  | error e => exact h.of_error hm

theorem Post.handle {f : ε → Except ε α}
    (h : m.Post s ok fun e t => (∀ a, f e = .ok a → ok a t) ∧ ∀ e', f e = .error e' → err e' t) :
    (m.handle f).Post s ok err := by
  obtain ⟨r, t, hm⟩ : ∃ r t, m s = (r, t) := ⟨_, _, rfl⟩
  rw [Post, Effect.handle, hm]
  cases r with
  | ok a => exact h.of_ok hm
  | error e =>
    obtain ⟨hok, herr⟩ := h.of_error hm
    show match f e with
      | .ok a => ok a t
      | .error e => err e t
    cases hf : f e with
    | ok a => exact hok a hf
    | error e' => exact herr e' hf

theorem Post.ignore {ok : Unit → σ → Prop}
    (h : m.Post s (fun _ => ok ()) fun _ => ok ()) : m.ignore.Post s ok err := by
  obtain ⟨r, t, hm⟩ : ∃ r t, m s = (r, t) := ⟨_, _, rfl⟩
  show ok () (m s).2
  rw [hm]
  cases r with
  | ok a => exact h.of_ok hm
  | error e => exact h.of_error hm

theorem Post.within {get : τ → σ} {set : σ → τ → τ} {t : τ} {ok : α → τ → Prop}
    {err : ε → τ → Prop}
    (h : m.Post (get t) (fun a s => ok a (set s t)) fun e s => err e (set s t)) :
    (m.within get set).Post t ok err := by
  obtain ⟨r, s, hm⟩ : ∃ r s, m (get t) = (r, s) := ⟨_, _, rfl⟩
  rw [Post, Effect.within, hm]
  cases r with
  | ok a => exact h.of_ok hm
  | error e => exact h.of_error hm

end Rules

end Effect
