/-
# Forests that are kept as links to a parent

Each element has a parent or none.  In a forest, every element comes to one without a parent if it
is followed upwards (`Rooted`, and `rooted_iff` in steps).  The links change one at a time:

* `rooted_update_iff` — a new parent makes no cycle exactly when it is not below the element.
* `rooted_update_none` — an element that loses its parent.
* `rooted_remove` — an element that is taken out, with the links that lead to it.
-/

import Mathlib.Data.Nat.Notation
import Mathlib.Logic.Function.Basic
import Mathlib.Tactic.Common

namespace Forest

variable {α : Type} {parent : α → Option α} {a b p : α}

/-- `n` steps upwards. -/
def climb (parent : α → Option α) : ℕ → α → Option α
  | 0, a => some a
  | n + 1, a => (parent a).bind (climb parent n)

/-- The element `b` is `a`, or above it. -/
def Above (parent : α → Option α) (a b : α) : Prop :=
  ∃ n, climb parent n a = some b

/-- Following the parents comes to an end. -/
inductive Rooted (parent : α → Option α) : α → Prop
  | root {a : α} (h : parent a = none) : Rooted parent a
  | child {a b : α} (h : parent a = some b) (hb : Rooted parent b) : Rooted parent a

/-- **Following the parents comes to an end at an element without one**, after some steps. -/
theorem rooted_iff : Rooted parent a ↔ ∃ n b, climb parent n a = some b ∧ parent b = none := by
  constructor
  · intro h
    induction h with
    | @root a h => exact ⟨0, a, rfl, h⟩
    | child h _ ih =>
      obtain ⟨n, root, hclimb, hroot⟩ := ih
      refine ⟨n + 1, root, ?_, hroot⟩
      rw [climb, h, Option.bind_some, hclimb]
  · rintro ⟨n, root, hclimb, hroot⟩
    induction n generalizing a with
    | zero =>
      obtain rfl := Option.some.inj hclimb
      exact .root hroot
    | succ n ih =>
      obtain ⟨b, hb, hclimb⟩ := Option.bind_eq_some_iff.mp hclimb
      exact .child hb (ih hclimb)

theorem Above.refl (a : α) : Above parent a a :=
  ⟨0, rfl⟩

theorem Above.child (h : parent a = some b) {c : α} (hc : Above parent b c) : Above parent a c := by
  obtain ⟨n, hn⟩ := hc
  refine ⟨n + 1, ?_⟩
  rw [climb, h, Option.bind_some, hn]

theorem Above.of_ne {c : α} (h : Above parent a c) (hne : a ≠ c) :
    ∃ b, parent a = some b ∧ Above parent b c := by
  obtain ⟨n, hn⟩ := h
  cases n with
  | zero => exact absurd (Option.some.inj hn) hne
  | succ n =>
    obtain ⟨b, hb, hn⟩ := Option.bind_eq_some_iff.mp hn
    exact ⟨b, hb, n, hn⟩

/-! ### Changed links -/

theorem rooted_mono {parent' : α → Option α} (hsub : ∀ a b, parent' a = some b → parent a = some b)
    (h : Rooted parent a) : Rooted parent' a := by
  induction h with
  | @root a h =>
    refine .root (Option.eq_none_iff_forall_ne_some.mpr fun b hb => ?_)
    rw [hsub a b hb] at h
    cases h
  | @child a b h _ ih =>
    cases hparent : parent' a with
    | none => exact .root hparent
    | some c =>
      have hc := hsub a c hparent
      rw [h] at hc
      obtain rfl := Option.some.inj hc
      exact .child hparent ih

variable [DecidableEq α]

/-- **An element that loses its parent** makes no cycle. -/
theorem rooted_update_none (h : Rooted parent b) : Rooted (Function.update parent a none) b := by
  refine rooted_mono (fun c d hc => ?_) h
  by_cases hca : c = a
  · subst hca
    rw [Function.update_self] at hc
    cases hc
  · rwa [Function.update_of_ne hca] at hc

/-- **An element that is taken out**, with the links that lead to it, makes no cycle. -/
theorem rooted_remove {parent' : α → Option α}
    (hparent' : ∀ b, parent' b = if b = a then none else (parent b).filter (· ≠ a))
    (h : Rooted parent b) : Rooted parent' b := by
  refine rooted_mono (fun c d hc => ?_) h
  rw [hparent' c] at hc
  split_ifs at hc
  exact (Option.filter_eq_some_iff.mp hc).1

/-- With a new parent, what is below the element does not come to an end if the parent is. -/
theorem not_above_of_rooted (hp : Above parent p a) {c : α} (hc : Above parent c a) :
    ¬ Rooted (Function.update parent a (some p)) c := by
  intro h
  induction h with
  | @root c h =>
    by_cases hca : c = a
    · subst hca
      rw [Function.update_self] at h
      cases h
    · rw [Function.update_of_ne hca] at h
      obtain ⟨d, hd, -⟩ := hc.of_ne hca
      rw [h] at hd
      cases hd
  | @child c d h _ ih =>
    by_cases hca : c = a
    · subst hca
      rw [Function.update_self] at h
      obtain rfl := Option.some.inj h
      exact ih hp
    · rw [Function.update_of_ne hca] at h
      obtain ⟨e, he, hea⟩ := hc.of_ne hca
      rw [h] at he
      obtain rfl := Option.some.inj he
      exact ih hea

theorem rooted_of_not_above (h : Rooted parent b) (hb : ¬ Above parent b a) (new : Option α) :
    Rooted (Function.update parent a new) b := by
  induction h with
  | @root b h =>
    have hne : b ≠ a := fun heq => hb (heq ▸ Above.refl b)
    exact .root ((Function.update_of_ne hne _ _).trans h)
  | @child b c h _ ih =>
    have hne : b ≠ a := fun heq => hb (heq ▸ Above.refl b)
    exact .child ((Function.update_of_ne hne _ _).trans h) (ih fun hc => hb (hc.child h))

/-- **A new parent makes no cycle exactly when it is not below the element.** -/
theorem rooted_update_iff (h : ∀ b, Rooted parent b) :
    (∀ b, Rooted (Function.update parent a (some p)) b) ↔ ¬ Above parent p a := by
  constructor
  · exact fun hnew hp => not_above_of_rooted hp hp (hnew p)
  · intro hp b
    have ha : Rooted (Function.update parent a (some p)) a :=
      .child (Function.update_self a _ parent) (rooted_of_not_above (h p) hp _)
    induction h b with
    | @root b hb =>
      by_cases hne : b = a
      · exact hne ▸ ha
      · exact .root ((Function.update_of_ne hne _ _).trans hb)
    | @child b c hb _ ih =>
      by_cases hne : b = a
      · exact hne ▸ ha
      · exact .child ((Function.update_of_ne hne _ _).trans hb) ih

end Forest
