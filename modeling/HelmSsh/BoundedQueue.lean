/-
# Queues bounded by length and by total cost

A history that keeps only its newest entries: at most `maxLength` of them and at
most `maxCost` in total, where each entry has a cost.  `push` adds an entry at the
back and then drops entries from the front until both bounds hold.  The total is
kept beside the entries in a counter that saturates at `limit`.

* `trim_suffix` — what is left is a suffix of what was there;
* `Bounded.push` — the counter is the exact total of the entries that are left, and
  both bounds hold, also when the counter saturated on the way;
* `Bounded.push_ne_nil` — an entry that fits alone is not dropped by its own push.
-/

import Mathlib.Algebra.GroupWithZero.Nat
import Mathlib.Data.List.Basic
import Mathlib.Data.Nat.Notation

/-- Addition that stops at `limit`, as machine integers saturate. -/
def saturatingAdd (limit a b : ℕ) : ℕ :=
  min (a + b) limit

namespace BoundedQueue

variable {τ : Type*} (cost : τ → ℕ) (maxLength maxCost limit : ℕ)

/-- The total cost of some entries. -/
def total (xs : List τ) : ℕ :=
  (xs.map cost).sum

@[simp] theorem total_nil : total cost [] = 0 := rfl

@[simp] theorem total_cons (x : τ) (xs : List τ) :
    total cost (x :: xs) = cost x + total cost xs := by
  simp [total]

@[simp] theorem total_append (xs ys : List τ) :
    total cost (xs ++ ys) = total cost xs + total cost ys := by
  simp [total]

/-- Drop entries from the front while there are too many or their counted total `n` is
too large. -/
def trim : List τ → ℕ → List τ × ℕ
  | [], n => ([], n)
  | x :: xs, n =>
    if maxLength < xs.length + 1 ∨ maxCost < n then trim xs (n - cost x) else (x :: xs, n)

/-- Add an entry at the back and drop what no longer fits at the front. -/
def push (q : List τ × ℕ) (x : τ) : List τ × ℕ :=
  trim cost maxLength maxCost (q.1 ++ [x]) (saturatingAdd limit q.2 (cost x))

/-- A queue within its bounds, whose counter is the total of its entries. -/
structure Bounded (q : List τ × ℕ) : Prop where
  count_eq : q.2 = total cost q.1
  length_le : q.1.length ≤ maxLength
  cost_le : q.2 ≤ maxCost

theorem bounded_nil : Bounded cost maxLength maxCost ([], 0) :=
  ⟨rfl, Nat.zero_le _, Nat.zero_le _⟩

variable {cost maxLength maxCost limit}

theorem trim_suffix (xs : List τ) (n : ℕ) : (trim cost maxLength maxCost xs n).1 <:+ xs := by
  induction xs generalizing n with
  | nil => exact List.suffix_rfl
  | cons x xs ih =>
    rw [trim]
    split
    · exact (ih (n - cost x)).trans (List.suffix_cons x xs)
    · exact List.suffix_rfl

theorem push_suffix (q : List τ × ℕ) (x : τ) :
    (push cost maxLength maxCost limit q x).1 <:+ q.1 ++ [x] :=
  trim_suffix _ _

/-- An exact counter stays exact, and what is left is within the bounds. -/
theorem bounded_trim {xs : List τ} {n : ℕ} (h : n = total cost xs) :
    Bounded cost maxLength maxCost (trim cost maxLength maxCost xs n) := by
  induction xs generalizing n with
  | nil =>
    rw [trim, h]
    exact bounded_nil cost maxLength maxCost
  | cons x xs ih =>
    rw [trim]
    rw [total_cons] at h
    split
    · exact ih (by omega)
    · rename_i hfits
      rw [not_or, Nat.not_lt, Nat.not_lt] at hfits
      exact ⟨by rw [total_cons]; exact h, hfits.1, hfits.2⟩

/-- A counter that saturated is too large until every entry is dropped, and the last
subtraction brings it to zero.  The induction keeps it above `maxCost` by counting what
the entries before the last one can still take away. -/
theorem trim_saturated (x : τ) {xs : List τ} {n : ℕ} (hlarge : maxCost + total cost xs < n)
    (hle : n ≤ total cost (xs ++ [x])) :
    trim cost maxLength maxCost (xs ++ [x]) n = ([], 0) := by
  induction xs generalizing n with
  | nil =>
    rw [total_nil] at hlarge
    rw [List.nil_append, total_cons, total_nil] at hle
    rw [List.nil_append, trim, if_pos (.inr (by omega)), trim]
    rw [Nat.sub_eq_zero_of_le (by omega)]
  | cons y ys ih =>
    rw [total_cons] at hlarge
    rw [List.cons_append, total_cons] at hle
    rw [List.cons_append, trim, if_pos (.inr (by omega))]
    exact ih (by omega) (by omega)

/-- **A push keeps the queue within its bounds and its counter exact**, if the counter
can hold twice what the queue may. -/
theorem Bounded.push {q : List τ × ℕ} (h : Bounded cost maxLength maxCost q)
    (hlimit : 2 * maxCost < limit) (x : τ) :
    Bounded cost maxLength maxCost (push cost maxLength maxCost limit q x) := by
  have hcount := h.count_eq
  have hcost := h.cost_le
  unfold BoundedQueue.push saturatingAdd
  rcases Nat.le_total (q.2 + cost x) limit with hfits | hover
  · rw [Nat.min_eq_left hfits]
    refine bounded_trim ?_
    rw [total_append, total_cons, total_nil]
    omega
  · rw [Nat.min_eq_right hover, trim_saturated x (by omega)]
    · exact bounded_nil cost maxLength maxCost
    · rw [total_append, total_cons, total_nil]
      omega

theorem trim_ne_nil (x : τ) {xs : List τ} {n : ℕ} (h : n = total cost (xs ++ [x]))
    (hlength : 1 ≤ maxLength) (hx : cost x ≤ maxCost) :
    (trim cost maxLength maxCost (xs ++ [x]) n).1 ≠ [] := by
  induction xs generalizing n with
  | nil =>
    rw [List.nil_append, total_cons, total_nil] at h
    rw [List.nil_append, trim, if_neg]
    · exact List.cons_ne_nil _ _
    · simp only [List.length_nil]
      omega
  | cons y ys ih =>
    rw [List.cons_append, total_cons] at h
    rw [List.cons_append, trim]
    split
    · exact ih (by omega)
    · exact List.cons_ne_nil _ _

/-- The newest entry is still there after its push, if it fits alone. -/
theorem Bounded.push_ne_nil {q : List τ × ℕ} (h : Bounded cost maxLength maxCost q)
    (hlimit : 2 * maxCost ≤ limit) (hlength : 1 ≤ maxLength) {x : τ} (hx : cost x ≤ maxCost) :
    (BoundedQueue.push cost maxLength maxCost limit q x).1 ≠ [] := by
  have hcount := h.count_eq
  have hcost := h.cost_le
  refine trim_ne_nil x ?_ hlength hx
  rw [saturatingAdd, Nat.min_eq_left (by omega), total_append, total_cons, total_nil]
  omega

end BoundedQueue
