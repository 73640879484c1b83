/-
# Locks taken in order

Operations that take fair locks around parts of their work (`Script.hold`), any number of them at
once, in any interleaving (`Locks.machine`).  A script says in which order an operation asks for
locks; how it branches, how often it repeats and which keys it picks is left open.  An operation may
leave the call it is in, or be dropped, at any point, also while it waits; the guards it has taken
are then given back one by one, as a scope gives them back.

A discipline says which lock may be asked for while others are held (`LockDiscipline.allowed`).
When every script follows it (`Script.Follows`), every operation of a reachable state has asked for
its locks in that order (`Locks.reachable_inv`), and a state whose locks can be ranked so that an
operation waits only for a lock above those it holds has no deadlock (`Locks.not_deadlocked`).  The
rank may depend on the state, so that two locks may be taken in both orders where a third one keeps
the two orders apart.
-/

import HelmSsh.FairLock
import HelmSsh.Machine
import Mathlib.Data.Nat.Notation
import Mathlib.Logic.Function.Basic
import Mathlib.Data.Set.Defs

/-- The order in which an operation asks for locks. -/
inductive Script (Λ κ : Type) where
  /-- Work that takes no lock. -/
  | done
  | seq (first second : Script Λ κ)
  | either (left right : Script Λ κ)
  /-- The body, any number of times. -/
  | loop (body : Script Λ κ)
  /-- The body, for a key that the state of the program gives. -/
  | pick (body : κ → Script Λ κ)
  /-- A call, which may return early. -/
  | call (body : Script Λ κ)
  /-- The body with a guard in scope. -/
  | hold (l : Λ) (m : LockMode) (body : Script Λ κ)

/-- What an operation still has to do, the innermost part first. -/
inductive Frame (Λ κ : Type) where
  | run (p : Script Λ κ)
  /-- It waits for a lock. -/
  | wait (l : Λ) (m : LockMode) (body : Script Λ κ)
  /-- A guard goes out of scope. -/
  | drop (l : Λ) (m : LockMode)
  /-- A call ends. -/
  | ret

/-- How an open point of a script is settled. -/
inductive Choice (κ : Type) where
  | left
  | right
  | key (k : κ)

/-- What happens: an operation starts, goes on, leaves its call or is dropped, or a lock is granted
to the first of its queue. -/
inductive LockEvent (ι Λ κ γ : Type) where
  | start (i : ι) (command : γ)
  | advance (i : ι) (choice : Choice κ)
  | leave (i : ι)
  | cancel (i : ι)
  | grant (l : Λ)

/-- Which lock may be asked for, and how, while others are held: none that is held already. -/
structure LockDiscipline (Λ : Type) where
  allowed : List Λ → Λ → LockMode → Prop
  fresh : ∀ {held l m}, allowed held l m → l ∉ held

/-- The locks, and what each operation still has to do. -/
structure Locks (ι Λ κ : Type) where
  lock : Λ → FairLock ι
  stack : ι → List (Frame Λ κ)

variable {ι Λ κ γ : Type}

/-! ### Scripts and stacks -/

namespace Script

/-- What one step makes of a script that asks for no lock at once. -/
def expand : Script Λ κ → Choice κ → Option (List (Frame Λ κ))
  | .done, _ => some []
  | .seq first second, _ => some [.run first, .run second]
  | .either left _, .left => some [.run left]
  | .either _ right, .right => some [.run right]
  | .loop body, .left => some [.run body, .run (.loop body)]
  | .loop _, .right => some []
  | .pick body, .key k => some [.run (body k)]
  | .call body, _ => some [.run body, .ret]
  | _, _ => none

/-- The script asks for locks as the discipline says, where some are held already. -/
def Follows (d : LockDiscipline Λ) (held : List Λ) : Script Λ κ → Prop
  | .done => True
  | .seq first second => first.Follows d held ∧ second.Follows d held
  | .either left right => left.Follows d held ∧ right.Follows d held
  | .loop body => body.Follows d held
  | .pick body => ∀ k, (body k).Follows d held
  | .call body => body.Follows d held
  | .hold l m body => d.allowed held l m ∧ body.Follows d (l :: held)

end Script

namespace Frame

/-- The locks that a stack still has to give back. -/
def held : List (Frame Λ κ) → List Λ
  | [] => []
  | .drop l _ :: rest => l :: held rest
  | _ :: rest => held rest

/-- An operation leaves its call: the guards of the call go out of scope. -/
def unwind : List (Frame Λ κ) → List (Frame Λ κ)
  | [] => []
  | .drop l m :: rest => .drop l m :: unwind rest
  | .ret :: rest => rest
  | _ :: rest => unwind rest

/-- An operation is dropped: all of its guards go out of scope. -/
def guards : List (Frame Λ κ) → List (Frame Λ κ)
  | [] => []
  | .drop l m :: rest => .drop l m :: guards rest
  | _ :: rest => guards rest

/-- The stack was built as the discipline says. -/
def Ordered (d : LockDiscipline Λ) : List (Frame Λ κ) → Prop
  | [] => True
  | .run p :: rest => p.Follows d (held rest) ∧ Ordered d rest
  | .wait l m body :: rest =>
    d.allowed (held rest) l m ∧ body.Follows d (l :: held rest) ∧ Ordered d rest
  | .drop l m :: rest => d.allowed (held rest) l m ∧ Ordered d rest
  | .ret :: rest => Ordered d rest

/-- The locks held are those with a guard on the stack. -/
theorem mem_held {stack : List (Frame Λ κ)} {l : Λ} :
    l ∈ held stack ↔ ∃ m, Frame.drop l m ∈ stack := by
  induction stack with
  | nil => simp [held]
  | cons frame rest ih =>
    cases frame with
    | drop l' m' =>
      rw [held, List.mem_cons, ih]
      constructor
      · rintro (rfl | ⟨m, hm⟩)
        · exact ⟨m', List.mem_cons_self⟩
        · exact ⟨m, List.mem_cons_of_mem _ hm⟩
      · rintro ⟨m, hm⟩
        rcases List.mem_cons.mp hm with heq | hm
        · exact Or.inl (Frame.drop.inj heq).1
        · exact Or.inr ⟨m, hm⟩
    | run p => simpa [held] using ih
    | wait l' m' body => simpa [held] using ih
    | ret => simpa [held] using ih

theorem held_unwind (stack : List (Frame Λ κ)) : held (unwind stack) = held stack := by
  induction stack with
  | nil => rfl
  | cons frame rest ih => cases frame <;> simp [unwind, held, ih]

theorem drop_mem_unwind {stack : List (Frame Λ κ)} {l : Λ} {m : LockMode} :
    Frame.drop l m ∈ unwind stack ↔ Frame.drop l m ∈ stack := by
  induction stack with
  | nil => rfl
  | cons frame rest ih => cases frame <;> simp [unwind, ih]

theorem held_guards (stack : List (Frame Λ κ)) : held (guards stack) = held stack := by
  induction stack with
  | nil => rfl
  | cons frame rest ih => cases frame <;> simp [guards, held, ih]

theorem drop_mem_guards {stack : List (Frame Λ κ)} {l : Λ} {m : LockMode} :
    Frame.drop l m ∈ guards stack ↔ Frame.drop l m ∈ stack := by
  induction stack with
  | nil => rfl
  | cons frame rest ih => cases frame <;> simp [guards, ih]

/-- What waits after a call was left did not wait on top before. -/
theorem wait_mem_unwind {stack : List (Frame Λ κ)} {l : Λ} {m : LockMode} {body : Script Λ κ}
    (h : Frame.wait l m body ∈ unwind stack) : Frame.wait l m body ∈ stack.tail := by
  induction stack with
  | nil => exact h
  | cons frame rest ih =>
    cases frame with
    | drop l' m' =>
      rcases List.mem_cons.mp h with heq | hmem
      · cases heq
      · exact List.mem_of_mem_tail (ih hmem)
    | ret => exact h
    | run p => exact List.mem_of_mem_tail (ih h)
    | wait l' m' body' => exact List.mem_of_mem_tail (ih h)

theorem wait_not_mem_guards {stack : List (Frame Λ κ)} {l : Λ} {m : LockMode}
    {body : Script Λ κ} : Frame.wait l m body ∉ guards stack := by
  induction stack with
  | nil => exact List.not_mem_nil
  | cons frame rest ih => cases frame <;> simp [guards, ih]

variable {d : LockDiscipline Λ}

theorem Ordered.allowed_of_drop {stack : List (Frame Λ κ)} (h : Ordered d stack) {l : Λ}
    {m : LockMode} (hdrop : Frame.drop l m ∈ stack) : ∃ before, d.allowed before l m := by
  induction stack with
  | nil => cases hdrop
  | cons frame rest ih =>
    rcases List.mem_cons.mp hdrop with rfl | hrest
    · exact ⟨_, h.1⟩
    · cases frame with
      | run p => exact ih h.2 hrest
      | wait l' m' body => exact ih h.2.2 hrest
      | drop l' m' => exact ih h.2 hrest
      | ret => exact ih h hrest

theorem Ordered.unwind {stack : List (Frame Λ κ)} (h : Ordered d stack) :
    Ordered d (unwind stack) := by
  induction stack with
  | nil => trivial
  | cons frame rest ih =>
    cases frame with
    | run p => exact ih h.2
    | wait l m body => exact ih h.2.2
    | drop l m =>
      refine ⟨?_, ih h.2⟩
      rw [held_unwind]
      exact h.1
    | ret => exact h

theorem Ordered.guards {stack : List (Frame Λ κ)} (h : Ordered d stack) :
    Ordered d (guards stack) := by
  induction stack with
  | nil => trivial
  | cons frame rest ih =>
    cases frame with
    | run p => exact ih h.2
    | wait l m body => exact ih h.2.2
    | drop l m =>
      refine ⟨?_, ih h.2⟩
      rw [held_guards]
      exact h.1
    | ret => exact ih h

/-- A step inside a script keeps the order, and takes and gives no guard. -/
theorem Ordered.expand {p : Script Λ κ} {rest frames : List (Frame Λ κ)} {choice : Choice κ}
    (h : Ordered d (.run p :: rest)) (hexpand : p.expand choice = some frames) :
    Ordered d (frames ++ rest) ∧ (∀ l m, Frame.drop l m ∉ frames) ∧
      ∀ l m body, Frame.wait l m body ∉ frames := by
  obtain ⟨hp, hrest⟩ := h
  cases p with
  | done =>
    obtain rfl := Option.some.inj hexpand
    exact ⟨hrest, by simp, by simp⟩
  | seq first second =>
    obtain rfl := Option.some.inj hexpand
    exact ⟨⟨hp.1, hp.2, hrest⟩, by simp, by simp⟩
  | either left right =>
    cases choice with
    | left =>
      obtain rfl := Option.some.inj hexpand
      exact ⟨⟨hp.1, hrest⟩, by simp, by simp⟩
    | right =>
      obtain rfl := Option.some.inj hexpand
      exact ⟨⟨hp.2, hrest⟩, by simp, by simp⟩
    | key k => cases hexpand
  | loop body =>
    cases choice with
    | left =>
      obtain rfl := Option.some.inj hexpand
      exact ⟨⟨hp, hp, hrest⟩, by simp, by simp⟩
    | right =>
      obtain rfl := Option.some.inj hexpand
      exact ⟨hrest, by simp, by simp⟩
    | key k => cases hexpand
  | pick body =>
    cases choice with
    | left => cases hexpand
    | right => cases hexpand
    | key k =>
      obtain rfl := Option.some.inj hexpand
      exact ⟨⟨hp k, hrest⟩, by simp, by simp⟩
  | call body =>
    obtain rfl := Option.some.inj hexpand
    exact ⟨⟨hp, hrest⟩, by simp, by simp⟩
  | hold l m body => cases hexpand

end Frame

namespace Locks

variable [DecidableEq ι] [DecidableEq Λ]

/-! ### Runs -/

/-- Nothing has started. -/
def initial : Locks ι Λ κ := ⟨fun _ => FairLock.free, fun _ => []⟩

/-- An operation that waits leaves the queue. -/
def unqueue (s : Locks ι Λ κ) (i : ι) : Λ → FairLock ι :=
  match s.stack i with
  | .wait l _ _ :: _ => Function.update s.lock l ((s.lock l).cancel i)
  | _ => s.lock

/-- An operation goes on: it asks for a lock, gives one back, or does other work. -/
def advance (s : Locks ι Λ κ) (i : ι) (choice : Choice κ) : Option (Locks ι Λ κ) :=
  match s.stack i with
  | .run (.hold l m body) :: rest =>
    some ⟨Function.update s.lock l ((s.lock l).request i m),
      Function.update s.stack i (.wait l m body :: rest)⟩
  | .run p :: rest =>
    (p.expand choice).map fun frames =>
      { s with stack := Function.update s.stack i (frames ++ rest) }
  | .drop l _ :: rest =>
    some ⟨Function.update s.lock l ((s.lock l).release i), Function.update s.stack i rest⟩
  | .ret :: rest => some { s with stack := Function.update s.stack i rest }
  | _ => none

/-- The first of the queue of a lock goes on with the lock. -/
def grant (s : Locks ι Λ κ) (l : Λ) : Option (Locks ι Λ κ) :=
  match (s.lock l).waiters, (s.lock l).grant with
  | (i, _) :: _, some granted =>
    match s.stack i with
    | .wait _ m body :: rest =>
      some ⟨Function.update s.lock l granted,
        Function.update s.stack i (.run body :: .drop l m :: rest)⟩
    | _ => none
  | _, _ => none

/-- The operations that follow their scripts, in any interleaving. -/
def machine (script : γ → Script Λ κ) : Machine (Locks ι Λ κ) (LockEvent ι Λ κ γ) where
  init := initial
  step s
    | .start i command =>
      if (s.stack i).isEmpty then
        some { s with stack := Function.update s.stack i [.run (script command)] }
      else none
    | .advance i choice => s.advance i choice
    | .leave i => some ⟨s.unqueue i, Function.update s.stack i (Frame.unwind (s.stack i))⟩
    | .cancel i => some ⟨s.unqueue i, Function.update s.stack i (Frame.guards (s.stack i))⟩
    | .grant l => s.grant l

/-- The locks and the stacks agree, and every stack was built as the discipline says. -/
structure Inv (d : LockDiscipline Λ) (s : Locks ι Λ κ) : Prop where
  holders : ∀ i l m, (i, m) ∈ (s.lock l).holders ↔ Frame.drop l m ∈ s.stack i
  waiters : ∀ i l m, (i, m) ∈ (s.lock l).waiters ↔
    ∃ body rest, s.stack i = .wait l m body :: rest
  once : ∀ l, ((s.lock l).waiters.map Prod.fst).Nodup
  ordered : ∀ i, Frame.Ordered d (s.stack i)
  /-- Only the innermost part of an operation waits. -/
  parked : ∀ i l m body, Frame.wait l m body ∉ (s.stack i).tail

variable {d : LockDiscipline Λ} {s s' : Locks ι Λ κ}

omit [DecidableEq ι] [DecidableEq Λ] in
theorem Inv.not_waiting (hinv : Inv d s) {i : ι}
    (hstack : ∀ l m body rest, s.stack i ≠ .wait l m body :: rest) (l : Λ) (m : LockMode) :
    (i, m) ∉ (s.lock l).waiters := by
  intro hmem
  obtain ⟨body, rest, heq⟩ := (hinv.waiters i l m).mp hmem
  exact hstack l m body rest heq

omit [DecidableEq Λ] in
/-- A step that takes no lock, gives none back, and neither starts nor ends to wait. -/
theorem Inv.setStack (hinv : Inv d s) {i : ι} {stack : List (Frame Λ κ)}
    (hdrops : ∀ l m, Frame.drop l m ∈ stack ↔ Frame.drop l m ∈ s.stack i)
    (hbefore : ∀ l m body rest, s.stack i ≠ .wait l m body :: rest)
    (hafter : ∀ l m body, Frame.wait l m body ∉ stack)
    (hordered : Frame.Ordered d stack) :
    Inv d { s with stack := Function.update s.stack i stack } := by
  constructor
  · intro j l m
    dsimp only
    by_cases hj : j = i
    · subst hj
      rw [Function.update_self, hdrops]
      exact hinv.holders j l m
    · rw [Function.update_of_ne hj]
      exact hinv.holders j l m
  · intro j l m
    dsimp only
    by_cases hj : j = i
    · subst hj
      rw [Function.update_self]
      refine iff_of_false (hinv.not_waiting hbefore l m) ?_
      rintro ⟨body, rest, rfl⟩
      exact hafter l m body List.mem_cons_self
    · rw [Function.update_of_ne hj]
      exact hinv.waiters j l m
  · exact hinv.once
  · intro j
    dsimp only
    by_cases hj : j = i
    · subst hj
      rw [Function.update_self]
      exact hordered
    · rw [Function.update_of_ne hj]
      exact hinv.ordered j
  · intro j
    dsimp only
    by_cases hj : j = i
    · subst hj
      rw [Function.update_self]
      exact fun l m body hmem => hafter l m body (List.mem_of_mem_tail hmem)
    · rw [Function.update_of_ne hj]
      exact hinv.parked j

/-- A step of one operation that changes one lock: what is to be shown of both. -/
theorem Inv.setBoth (hinv : Inv d s) {i : ι} {l : Λ} {fair : FairLock ι}
    {stack : List (Frame Λ κ)}
    (hother : ∀ j m, j ≠ i → (((j, m) ∈ fair.holders ↔ (j, m) ∈ (s.lock l).holders) ∧
      ((j, m) ∈ fair.waiters ↔ (j, m) ∈ (s.lock l).waiters)))
    (hholds : ∀ m, (i, m) ∈ fair.holders ↔ Frame.drop l m ∈ stack)
    (hwaits : ∀ m, (i, m) ∈ fair.waiters ↔ ∃ body rest, stack = .wait l m body :: rest)
    (hdrops : ∀ l' m, l' ≠ l → (Frame.drop l' m ∈ stack ↔ Frame.drop l' m ∈ s.stack i))
    (hbefore : ∀ l' m body rest, s.stack i = .wait l' m body :: rest → l' = l)
    (hafter : ∀ l' m body rest, stack = .wait l' m body :: rest → l' = l)
    (honce : (fair.waiters.map Prod.fst).Nodup) (hordered : Frame.Ordered d stack)
    (hparked : ∀ l m body, Frame.wait l m body ∉ stack.tail) :
    Inv d ⟨Function.update s.lock l fair, Function.update s.stack i stack⟩ := by
  constructor
  · intro j l' m
    dsimp only
    by_cases hl : l' = l
    · subst hl
      by_cases hj : j = i
      · subst hj
        rw [Function.update_self, Function.update_self]
        exact hholds m
      · rw [Function.update_self, Function.update_of_ne hj, (hother j m hj).1]
        exact hinv.holders j l' m
    · by_cases hj : j = i
      · subst hj
        rw [Function.update_of_ne hl, Function.update_self, hdrops l' m hl]
        exact hinv.holders j l' m
      · rw [Function.update_of_ne hl, Function.update_of_ne hj]
        exact hinv.holders j l' m
  · intro j l' m
    dsimp only
    by_cases hl : l' = l
    · subst hl
      by_cases hj : j = i
      · subst hj
        rw [Function.update_self, Function.update_self]
        exact hwaits m
      · rw [Function.update_self, Function.update_of_ne hj, (hother j m hj).2]
        exact hinv.waiters j l' m
    · by_cases hj : j = i
      · subst hj
        rw [Function.update_of_ne hl, Function.update_self, hinv.waiters j l' m]
        refine iff_of_false ?_ ?_
        · rintro ⟨body, rest, heq⟩
          exact hl (hbefore l' m body rest heq)
        · rintro ⟨body, rest, heq⟩
          exact hl (hafter l' m body rest heq)
      · rw [Function.update_of_ne hl, Function.update_of_ne hj]
        exact hinv.waiters j l' m
  · intro l'
    dsimp only
    by_cases hl : l' = l
    · subst hl
      rw [Function.update_self]
      exact honce
    · rw [Function.update_of_ne hl]
      exact hinv.once l'
  · intro j
    dsimp only
    by_cases hj : j = i
    · subst hj
      rw [Function.update_self]
      exact hordered
    · rw [Function.update_of_ne hj]
      exact hinv.ordered j
  · intro j
    dsimp only
    by_cases hj : j = i
    · subst hj
      rw [Function.update_self]
      exact hparked
    · rw [Function.update_of_ne hj]
      exact hinv.parked j

/-! ### Steps -/

omit [DecidableEq ι] [DecidableEq Λ] in
theorem inv_initial (d : LockDiscipline Λ) : Inv d (initial : Locks ι Λ κ) where
  holders _ _ _ := iff_of_false List.not_mem_nil List.not_mem_nil
  waiters i l m := by
    refine iff_of_false List.not_mem_nil ?_
    rintro ⟨body, rest, heq⟩
    cases heq
  once _ := List.nodup_nil
  ordered _ := trivial
  parked _ _ _ _ := List.not_mem_nil

omit [DecidableEq ι] [DecidableEq Λ] in
theorem Inv.rest_parked (hinv : Inv d s) {i : ι} {frame : Frame Λ κ} {rest : List (Frame Λ κ)}
    (hstack : s.stack i = frame :: rest) (l : Λ) (m : LockMode) (body : Script Λ κ) :
    Frame.wait l m body ∉ rest := by
  have hparked := hinv.parked i l m body
  rw [hstack] at hparked
  exact hparked

theorem Inv.request (hinv : Inv d s) {i : ι} {l : Λ} {m : LockMode} {body : Script Λ κ}
    {rest : List (Frame Λ κ)} (hstack : s.stack i = .run (.hold l m body) :: rest) :
    Inv d ⟨Function.update s.lock l ((s.lock l).request i m),
      Function.update s.stack i (.wait l m body :: rest)⟩ := by
  have hnew : ∀ l' m', (i, m') ∉ (s.lock l').waiters := by
    refine hinv.not_waiting ?_
    intro l' m' body' rest' heq
    rw [hstack] at heq
    cases heq
  have hordered := hinv.ordered i
  rw [hstack] at hordered
  refine hinv.setBoth ?_ ?_ ?_ ?_ ?_ ?_ ?_ ⟨hordered.1.1, hordered.1.2, hordered.2⟩ ?_
  · intro j m' hj
    refine ⟨Iff.rfl, ?_⟩
    rw [FairLock.request, List.mem_append, List.mem_singleton]
    refine or_iff_left ?_
    intro heq
    exact hj (Prod.mk.inj heq).1
  · intro m'
    rw [FairLock.request, hinv.holders i l m', hstack]
    simp
  · intro m'
    rw [FairLock.request, List.mem_append, List.mem_singleton, or_iff_right (hnew l m')]
    constructor
    · rintro heq
      obtain ⟨-, rfl⟩ := Prod.mk.inj heq
      exact ⟨body, rest, rfl⟩
    · rintro ⟨body', rest', heq⟩
      cases heq
      rfl
  · intro l' m' _
    rw [hstack]
    simp
  · intro l' m' body' rest' heq
    rw [hstack] at heq
    cases heq
  · intro l' m' body' rest' heq
    cases heq
    rfl
  · rw [FairLock.request, List.map_append, List.nodup_append]
    refine ⟨hinv.once l, by simp, ?_⟩
    intro j hj j' hj' heq
    obtain ⟨⟨j'', m'⟩, hmem, rfl⟩ := List.mem_map.mp hj
    obtain rfl := List.mem_singleton.mp hj'
    dsimp only at heq
    subst heq
    exact hnew l m' hmem
  · exact fun l' m' body' => hinv.rest_parked hstack l' m' body'

theorem Inv.release (hinv : Inv d s) {i : ι} {l : Λ} {m : LockMode} {rest : List (Frame Λ κ)}
    (hstack : s.stack i = .drop l m :: rest) :
    Inv d ⟨Function.update s.lock l ((s.lock l).release i), Function.update s.stack i rest⟩ := by
  have hwaiting : ∀ l' m', (i, m') ∉ (s.lock l').waiters := by
    refine hinv.not_waiting ?_
    intro l' m' body' rest' heq
    rw [hstack] at heq
    cases heq
  have hordered := hinv.ordered i
  rw [hstack] at hordered
  refine hinv.setBoth ?_ ?_ ?_ ?_ ?_ ?_ (hinv.once l) hordered.2 ?_
  · intro j m' hj
    refine ⟨?_, Iff.rfl⟩
    rw [FairLock.mem_holders_release]
    exact and_iff_left hj
  · intro m'
    refine iff_of_false ?_ ?_
    · intro hmem
      exact (FairLock.mem_holders_release.mp hmem).2 rfl
    · intro hmem
      exact d.fresh hordered.1 (Frame.mem_held.mpr ⟨m', hmem⟩)
  · intro m'
    refine iff_of_false (hwaiting l m') ?_
    rintro ⟨body, rest', rfl⟩
    exact hinv.rest_parked hstack l m' body List.mem_cons_self
  · intro l' m' hl
    rw [hstack, List.mem_cons]
    refine (or_iff_right ?_).symm
    intro heq
    exact hl (Frame.drop.inj heq).1
  · intro l' m' body' rest' heq
    rw [hstack] at heq
    cases heq
  · rintro l' m' body' rest' rfl
    exact absurd List.mem_cons_self (hinv.rest_parked hstack l' m' body')
  · exact fun l' m' body' hmem =>
      hinv.rest_parked hstack l' m' body' (List.mem_of_mem_tail hmem)

theorem Inv.grant (hinv : Inv d s) {l : Λ} (h : s.grant l = some s') : Inv d s' := by
  unfold Locks.grant at h
  split at h
  · rename_i i m back granted hfirst hgrant
    split at h
    · rename_i l₁ m₁ body rest hstack
      obtain rfl := Option.some.inj h
      obtain ⟨w, hwaiters, -, hholders⟩ := FairLock.grant_eq_some hgrant
      rw [hfirst] at hwaiters
      obtain ⟨rfl, hback⟩ := List.cons.inj hwaiters
      have hwait : (i, m) ∈ (s.lock l).waiters := by
        rw [hfirst]
        exact List.mem_cons_self
      obtain ⟨body', rest', heq⟩ := (hinv.waiters i l m).mp hwait
      rw [hstack] at heq
      cases heq
      have hordered := hinv.ordered i
      rw [hstack] at hordered
      have honce := hinv.once l
      rw [hfirst, List.map_cons, List.nodup_cons, hback] at honce
      refine hinv.setBoth ?_ ?_ ?_ ?_ ?_ ?_ honce.2
        ⟨hordered.2.1, hordered.1, hordered.2.2⟩ ?_
      · intro j m' hj
        have hne : (j, m') ≠ (i, m) := fun heq => hj (Prod.mk.inj heq).1
        constructor
        · rw [hholders, List.mem_cons]
          exact or_iff_right hne
        · rw [hfirst, hback, List.mem_cons]
          exact (or_iff_right hne).symm
      · intro m'
        have hold := hinv.holders i l m'
        rw [hstack, List.mem_cons, or_iff_right (by simp)] at hold
        rw [hholders, List.mem_cons, hold]
        simp
      · intro m'
        refine iff_of_false ?_ ?_
        · intro hmem
          exact honce.1 (List.mem_map.mpr ⟨(i, m'), hmem, rfl⟩)
        · rintro ⟨body', rest', heq⟩
          cases heq
      · intro l' m' hl
        rw [hstack]
        simp [hl]
      · intro l' m' body' rest' heq
        rw [hstack] at heq
        cases heq
        rfl
      · intro l' m' body' rest' heq
        cases heq
      · intro l' m' body' hmem
        rcases List.mem_cons.mp hmem with heq | hmem
        · cases heq
        · exact hinv.rest_parked hstack l' m' body' hmem
    · cases h
  · cases h

/-- An operation leaves a call, or is dropped: it keeps its guards, and waits no more. -/
theorem Inv.quit (hinv : Inv d s) {i : ι} {stack : List (Frame Λ κ)}
    (hdrops : ∀ l m, Frame.drop l m ∈ stack ↔ Frame.drop l m ∈ s.stack i)
    (hafter : ∀ l m body, Frame.wait l m body ∉ stack) (hordered : Frame.Ordered d stack) :
    Inv d ⟨s.unqueue i, Function.update s.stack i stack⟩ := by
  unfold unqueue
  split
  · rename_i l m body rest hstack
    refine hinv.setBoth ?_ ?_ ?_ ?_ ?_ ?_ ?_ hordered ?_
    · intro j m' hj
      refine ⟨Iff.rfl, ?_⟩
      rw [FairLock.mem_waiters_cancel]
      exact and_iff_left hj
    · intro m'
      rw [hdrops]
      exact hinv.holders i l m'
    · intro m'
      refine iff_of_false ?_ ?_
      · intro hmem
        exact (FairLock.mem_waiters_cancel.mp hmem).2 rfl
      · rintro ⟨body', rest', rfl⟩
        exact hafter l m' body' List.mem_cons_self
    · exact fun l' m' _ => hdrops l' m'
    · intro l' m' body' rest' heq
      rw [hstack] at heq
      cases heq
      rfl
    · rintro l' m' body' rest' rfl
      exact absurd List.mem_cons_self (hafter l' m' body')
    · exact (hinv.once l).sublist (List.filter_sublist.map Prod.fst)
    · exact fun l' m' body' hmem => hafter l' m' body' (List.mem_of_mem_tail hmem)
  · rename_i hbefore
    exact hinv.setStack hdrops (fun l m body rest heq => hbefore l m body rest heq) hafter hordered

theorem Inv.advance (hinv : Inv d s) {i : ι} {choice : Choice κ}
    (h : s.advance i choice = some s') : Inv d s' := by
  have hordered := hinv.ordered i
  unfold Locks.advance at h
  split at h
  · rename_i l m body rest hstack
    obtain rfl := Option.some.inj h
    exact hinv.request hstack
  · rename_i p rest _ hstack
    obtain ⟨frames, hexpand, rfl⟩ := Option.map_eq_some_iff.mp h
    rw [hstack] at hordered
    obtain ⟨hordered, hdrops, hwaits⟩ := hordered.expand hexpand
    refine hinv.setStack ?_ ?_ ?_ hordered
    · intro l m
      rw [hstack, List.mem_append, or_iff_right (hdrops l m)]
      simp
    · intro l m body rest' heq
      rw [hstack] at heq
      cases heq
    · intro l m body hmem
      rcases List.mem_append.mp hmem with hmem | hmem
      · exact hwaits l m body hmem
      · exact hinv.rest_parked hstack l m body hmem
  · rename_i l m rest hstack
    obtain rfl := Option.some.inj h
    exact hinv.release hstack
  · rename_i rest hstack
    obtain rfl := Option.some.inj h
    rw [hstack] at hordered
    refine hinv.setStack ?_ ?_ (hinv.rest_parked hstack) hordered
    · intro l m
      rw [hstack]
      simp
    · intro l m body rest' heq
      rw [hstack] at heq
      cases heq
  · cases h

omit [DecidableEq Λ] in
theorem Inv.start (hinv : Inv d s) {i : ι} {p : Script Λ κ} (hfollows : p.Follows d [])
    (hfree : s.stack i = []) :
    Inv d { s with stack := Function.update s.stack i [.run p] } := by
  refine hinv.setStack ?_ ?_ ?_ ⟨hfollows, trivial⟩
  · intro l m
    rw [hfree]
    simp
  · intro l m body rest heq
    rw [hfree] at heq
    cases heq
  · intro l m body hmem
    cases List.mem_singleton.mp hmem

/-- **Every reachable state is ordered** when every script follows the discipline. -/
theorem reachable_inv {script : γ → Script Λ κ} (hscript : ∀ c, (script c).Follows d [])
    (h : (machine script).Reachable s) : Inv d s := by
  refine h.invariant (I := Inv d) (inv_initial d) ?_
  intro s event s' hinv hstep
  cases event with
  | start i command =>
    obtain ⟨hfree, heq⟩ := Option.ite_none_right_eq_some.mp hstep
    obtain rfl := Option.some.inj heq
    exact hinv.start (hscript command) (List.isEmpty_iff.mp hfree)
  | advance i choice => exact hinv.advance hstep
  | leave i =>
    obtain rfl := Option.some.inj hstep
    exact hinv.quit (fun _ _ => Frame.drop_mem_unwind)
      (fun l m body hmem => hinv.parked i l m body (Frame.wait_mem_unwind hmem))
      (hinv.ordered i).unwind
  | cancel i =>
    obtain rfl := Option.some.inj hstep
    exact hinv.quit (fun _ _ => Frame.drop_mem_guards) (fun _ _ _ => Frame.wait_not_mem_guards)
      (hinv.ordered i).guards
  | grant l => exact hinv.grant hstep

/-! ### Deadlocks -/

omit [DecidableEq ι] [DecidableEq Λ]

/-- `j` keeps `i` from a lock that `i` waits for. -/
def Blocks (s : Locks ι Λ κ) (j i : ι) : Prop :=
  ∃ l, (s.lock l).Blocks j i

/-- Each member waits, and only for members: for holders of the lock, or for those that came before
it in the queue. -/
structure Deadlocked (s : Locks ι Λ κ) (members : Set ι) : Prop where
  nonempty : ∃ i, i ∈ members
  waits : ∀ i ∈ members, ∃ j, s.Blocks j i
  closed : ∀ i ∈ members, ∀ j, s.Blocks j i → j ∈ members

theorem Inv.holder_unique (hinv : Inv d s) {i j : ι} {l : Λ} {m : LockMode}
    (hi : Frame.drop l .exclusive ∈ s.stack i) (hj : Frame.drop l m ∈ s.stack j) : j = i :=
  FairLock.owner_unique ((hinv.holders i l .exclusive).mpr hi) ((hinv.holders j l m).mpr hj)

theorem Inv.place_unique (hinv : Inv d s) {i : ι} {l l' : Λ} {m m' : LockMode}
    {front back front' back' : List (ι × LockMode)}
    (h : (s.lock l).waiters = front ++ (i, m) :: back)
    (h' : (s.lock l').waiters = front' ++ (i, m') :: back') :
    l = l' ∧ front = front' ∧ m = m' := by
  have hmem : (i, m) ∈ (s.lock l).waiters := by
    rw [h]
    exact List.mem_append_right _ List.mem_cons_self
  have hmem' : (i, m') ∈ (s.lock l').waiters := by
    rw [h']
    exact List.mem_append_right _ List.mem_cons_self
  obtain ⟨body, rest, hstack⟩ := (hinv.waiters i l m).mp hmem
  obtain ⟨body', rest', hstack'⟩ := (hinv.waiters i l' m').mp hmem'
  rw [hstack] at hstack'
  cases hstack'
  refine ⟨rfl, ?_, rfl⟩
  have hfront : ∀ {front back}, (s.lock l).waiters = front ++ (i, m) :: back →
      (i, m) ∉ front := by
    intro front back hsplit hmem
    have honce := hinv.once l
    rw [hsplit, List.map_append, List.map_cons] at honce
    exact (List.nodup_append.mp honce).2.2 i (List.mem_map_of_mem hmem) i List.mem_cons_self rfl
  have hback : ∀ {front back}, (s.lock l).waiters = front ++ (i, m) :: back →
      (i, m) ∉ back := by
    intro front back hsplit hmem
    have honce := hinv.once l
    rw [hsplit, List.map_append, List.map_cons] at honce
    have hrest := (List.nodup_append.mp honce).2.1
    exact (List.nodup_cons.mp hrest).1 (List.mem_map_of_mem hmem)
  exact ((List.append_cons_inj_of_notMem (hfront h) (hback h)).mp (h.symm.trans h')).1

/-- **Ranked locks have no deadlock**: every operation waits for a lock above those it holds. -/
theorem not_deadlocked (hinv : Inv d s) (rank : Λ → ℕ) (top : ℕ) (htop : ∀ l, rank l ≤ top)
    (hrank : ∀ i l m body rest, s.stack i = .wait l m body :: rest →
      ∀ h ∈ Frame.held rest, rank h < rank l) (members : Set ι) : ¬ s.Deadlocked members := by
  rintro ⟨⟨i, hi⟩, hwaits, hclosed⟩
  -- Who waits for a lock leads to who waits for a higher one, or stands before it in its queue.
  have hnone : ∀ n l front i m back, top - rank l = n →
      (s.lock l).waiters = front ++ (i, m) :: back → i ∉ members := by
    intro n
    induction n using Nat.strongRecOn with
    | ind n higher =>
      intro l front
      induction hlength : front.length using Nat.strongRecOn generalizing front with
      | ind k before =>
        intro i m back hn hwaiters hi
        obtain ⟨j, l', hblocks⟩ := hwaits i hi
        have hj : j ∈ members := hclosed i hi j ⟨l', hblocks⟩
        obtain ⟨front', m', back', hwaiters', hblocks⟩ := hblocks
        obtain ⟨rfl, rfl, rfl⟩ := hinv.place_unique hwaiters hwaiters'
        rcases hblocks with ⟨held, hholds, -⟩ | ⟨asked, hasked⟩
        · obtain ⟨-, lj, frontj, mj, backj, hwaitersj, -⟩ := hwaits j hj
          have hmem : (j, mj) ∈ (s.lock lj).waiters := by
            rw [hwaitersj]
            exact List.mem_append_right _ List.mem_cons_self
          obtain ⟨body, rest, hstack⟩ := (hinv.waiters j lj mj).mp hmem
          have hdrop := (hinv.holders j l held).mp hholds
          rw [hstack] at hdrop
          rcases List.mem_cons.mp hdrop with heq | hdrop
          · cases heq
          · have habove := hrank j lj mj body rest hstack l (Frame.mem_held.mpr ⟨held, hdrop⟩)
            have hlj := htop lj
            exact higher (top - rank lj) (by omega) lj frontj j mj backj rfl hwaitersj hj
        · obtain ⟨front₁, front₂, rfl⟩ := List.append_of_mem hasked
          refine before front₁.length ?_ front₁ rfl j asked (front₂ ++ (i, m) :: back) hn ?_ hj
          · rw [← hlength, List.length_append, List.length_cons]
            omega
          · rw [hwaiters, List.append_assoc, List.cons_append]
  obtain ⟨j, l, front, m, back, hwaiters, -⟩ := hwaits i hi
  exact hnone _ l front i m back rfl hwaiters hi

end Locks
