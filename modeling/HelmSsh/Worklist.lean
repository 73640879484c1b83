/-
# Worklists

A state holds a queue of items still to visit.  Visiting an item may fail, and otherwise
changes the state and puts new items at the end of the queue (`Worklist`).  The work ends when
the queue is empty or a visit fails (`Ends`).

Whether items are taken off one at a time or in batches makes no difference to how the work
ends: a batch does what its items do one after another (`Ends.of_batch`,
`Ends.of_batch_none`), and an item that cannot be visited makes the work fail wherever it
stands in the queue (`Ends.of_mem`).  There is one end (`Ends.unique`).
-/

import Mathlib.Data.Nat.Notation
import Mathlib.Tactic.Common

/-- A state with a queue, and what a visit does.  A visit does not look at the queue: it only
adds to its end. -/
structure Worklist (σ α : Type*) where
  /-- The items still to visit. -/
  queue : σ → List α
  /-- The state with another queue. -/
  setQueue : List α → σ → σ
  /-- A visit of an item that was taken off the queue; `none` when it fails. -/
  visit : α → σ → Option σ
  queue_setQueue : ∀ q s, queue (setQueue q s) = q
  setQueue_setQueue : ∀ q q' s, setQueue q (setQueue q' s) = setQueue q s
  setQueue_queue : ∀ s, setQueue (queue s) s = s
  visit_setQueue : ∀ a q s, visit a (setQueue (q ++ queue s) s) =
    (visit a s).map fun s' => setQueue (q ++ queue s') s'

namespace Worklist

variable {σ α : Type*} (W : Worklist σ α)

/-- How the work ends from a state: in a state with an empty queue, or in a failure. -/
inductive Ends : σ → Option σ → Prop
  | done {s : σ} (h : W.queue s = []) : Ends s (some s)
  | fails {s : σ} {a : α} {q : List α} (h : W.queue s = a :: q)
      (hvisit : W.visit a (W.setQueue q s) = none) : Ends s none
  | next {s s' : σ} {a : α} {q : List α} {r : Option σ} (h : W.queue s = a :: q)
      (hvisit : W.visit a (W.setQueue q s) = some s') (hrest : Ends s' r) : Ends s r

/-- The visits of the items of a batch, one after another. -/
def visitAll : List α → σ → Option σ
  | [], s => some s
  | a :: batch, s => (W.visit a s).bind (visitAll batch)

variable {W} {s s' : σ} {a : α} {q batch : List α} {r r' : Option σ}

/-- **There is one end.** -/
theorem Ends.unique (h : W.Ends s r) (h' : W.Ends s r') : r = r' := by
  induction h with
  | done hq =>
    cases h' with
    | done => rfl
    | fails hq' => exact absurd (hq.symm.trans hq') (List.cons_ne_nil _ _).symm
    | next hq' => exact absurd (hq.symm.trans hq') (List.cons_ne_nil _ _).symm
  | fails hq hvisit =>
    cases h' with
    | done hq' => exact absurd (hq'.symm.trans hq) (List.cons_ne_nil _ _).symm
    | fails => rfl
    | next hq' hvisit' =>
      obtain ⟨rfl, rfl⟩ := List.cons.inj (hq.symm.trans hq')
      exact absurd (hvisit.symm.trans hvisit') (Option.some_ne_none _).symm
  | next hq hvisit _ ih =>
    cases h' with
    | done hq' => exact absurd (hq'.symm.trans hq) (List.cons_ne_nil _ _).symm
    | fails hq' hvisit' =>
      obtain ⟨rfl, rfl⟩ := List.cons.inj (hq.symm.trans hq')
      exact absurd (hvisit'.symm.trans hvisit) (Option.some_ne_none _).symm
    | next hq' hvisit' hrest' =>
      obtain ⟨rfl, rfl⟩ := List.cons.inj (hq.symm.trans hq')
      obtain rfl := Option.some_inj.mp (hvisit.symm.trans hvisit')
      exact ih hrest'

theorem visit_front (front : List α) (h : W.visit a s = some s') :
    W.visit a (W.setQueue (front ++ W.queue s) s)
      = some (W.setQueue (front ++ W.queue s') s') := by
  rw [W.visit_setQueue, h, Option.map_some]

theorem visit_front_none (front : List α) (h : W.visit a s = none) :
    W.visit a (W.setQueue (front ++ W.queue s) s) = none := by
  rw [W.visit_setQueue, h, Option.map_none]

/-- **A batch does what its items do one after another.** -/
theorem Ends.of_batch (hvisit : W.visitAll batch s = some s') (hrest : W.Ends s' r) :
    W.Ends (W.setQueue (batch ++ W.queue s) s) r := by
  induction batch generalizing s with
  | nil =>
    obtain rfl := Option.some_inj.mp hvisit
    rw [List.nil_append, W.setQueue_queue]
    exact hrest
  | cons a batch ih =>
    obtain ⟨s₁, hs₁, hbatch⟩ := Option.bind_eq_some_iff.mp hvisit
    refine .next (W.queue_setQueue ..) ?_ (ih hbatch)
    rw [W.setQueue_setQueue]
    exact visit_front batch hs₁

/-- **A batch fails when one of its items does.** -/
theorem Ends.of_batch_none (hvisit : W.visitAll batch s = none) :
    W.Ends (W.setQueue (batch ++ W.queue s) s) none := by
  induction batch generalizing s with
  | nil => exact absurd hvisit (Option.some_ne_none _)
  | cons a batch ih =>
    cases hs₁ : W.visit a s with
    | none =>
      refine .fails (W.queue_setQueue ..) ?_
      rw [W.setQueue_setQueue]
      exact visit_front_none batch hs₁
    | some s₁ =>
      rw [visitAll, hs₁, Option.bind_some] at hvisit
      refine .next (W.queue_setQueue ..) ?_ (ih hvisit)
      rw [W.setQueue_setQueue]
      exact visit_front batch hs₁

theorem queue_of_visit (h : W.visit a (W.setQueue q s) = some s') :
    ∃ new, W.queue s' = q ++ new := by
  have hfront := W.visit_setQueue a q (W.setQueue [] s)
  rw [W.queue_setQueue, List.append_nil, W.setQueue_setQueue, h] at hfront
  obtain ⟨t, -, ht⟩ := Option.map_eq_some_iff.mp hfront.symm
  exact ⟨W.queue t, by rw [← ht, W.queue_setQueue]⟩

/-- **An item that cannot be visited makes the work fail**, wherever it stands in the queue. -/
theorem Ends.of_mem (hmem : a ∈ W.queue s) (hvisit : ∀ t, W.visit a t = none) :
    W.Ends s none := by
  obtain ⟨front, rest, hq⟩ := List.append_of_mem hmem
  clear hmem
  induction front generalizing s rest with
  | nil => exact .fails hq (hvisit _)
  | cons b front ih =>
    cases hb : W.visit b (W.setQueue (front ++ a :: rest) s) with
    | none => exact .fails hq hb
    | some s' =>
      obtain ⟨new, hnew⟩ := queue_of_visit hb
      rw [List.append_assoc, List.cons_append] at hnew
      exact .next hq hb (ih _ hnew)

end Worklist
