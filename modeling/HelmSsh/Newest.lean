/-
# Keeping the newest of what arrives

Values with a rank arrive in some order, and each one takes the place of the one that was kept
unless its rank is lower.  Whatever the order is, and however often a value arrives, the one that
is kept at the end has arrived, and none that has arrived has a higher rank (`foldl_keep`).

A list may also be cut to the values of highest rank: what falls out has as many others at
its rank or above as are kept (`length_above_of_not_mem_newest`).
-/

import Mathlib.Data.List.Sort
import Mathlib.Order.Basic
import Mathlib.Tactic.Common

namespace Newest

variable {α ρ : Type*} [LinearOrder ρ] (rank : α → ρ)

/-- What is kept when a value arrives. -/
def keep (kept : Option α) (a : α) : Option α :=
  if kept.all fun b => rank b ≤ rank a then some a else kept

/-- One value arrives: it is kept, or what was kept has a higher rank. -/
theorem keep_cases (kept : Option α) (a : α) :
    (keep rank kept a = some a ∧ ∀ b, kept = some b → rank b ≤ rank a) ∨
      ∃ b, kept = some b ∧ keep rank kept a = some b ∧ rank a ≤ rank b := by
  cases kept with
  | none => exact .inl ⟨rfl, fun b h => by cases h⟩
  | some b =>
    rw [keep, Option.all_some]
    by_cases hle : rank b ≤ rank a
    · rw [decide_eq_true hle, if_pos rfl]
      refine .inl ⟨rfl, fun b' h => ?_⟩
      rw [← Option.some.inj h]
      exact hle
    · rw [decide_eq_false hle, if_neg Bool.false_ne_true]
      exact .inr ⟨b, rfl, rfl, le_of_not_ge hle⟩

/-- **What is kept has the highest rank** of all that has arrived and of what was kept before. -/
theorem foldl_keep_from (kept : Option α) (as : List α) (h : kept ≠ none ∨ as ≠ []) :
    ∃ a, as.foldl (keep rank) kept = some a ∧ (a ∈ as ∨ kept = some a) ∧
      (∀ b ∈ as, rank b ≤ rank a) ∧ ∀ b, kept = some b → rank b ≤ rank a := by
  induction as generalizing kept with
  | nil =>
    obtain ⟨a, rfl⟩ := Option.ne_none_iff_exists'.mp (h.resolve_right fun hne => hne rfl)
    refine ⟨a, rfl, .inr rfl, ?_, fun b hb => ?_⟩
    · intro b hb
      cases hb
    · rw [Option.some.inj hb]
  | cons c as ih =>
    rcases keep_cases rank kept c with ⟨hkeep, hbelow⟩ | ⟨b, rfl, hkeep, hle⟩
    · obtain ⟨a, hfold, hmem, hall, hkept⟩ := ih (some c) (.inl (Option.some_ne_none c))
      have hc := hkept c rfl
      refine ⟨a, ?_, ?_, fun d hd => ?_, fun d hd => le_trans (hbelow d hd) hc⟩
      · rw [List.foldl_cons, hkeep, hfold]
      · rcases hmem with hmem | heq
        · exact .inl (List.mem_cons_of_mem c hmem)
        · rw [← Option.some.inj heq]
          exact .inl List.mem_cons_self
      · rcases List.mem_cons.mp hd with rfl | hd
        · exact hc
        · exact hall d hd
    · obtain ⟨a, hfold, hmem, hall, hkept⟩ := ih (some b) (.inl (Option.some_ne_none b))
      have hb := hkept b rfl
      refine ⟨a, ?_, ?_, fun d hd => ?_, hkept⟩
      · rw [List.foldl_cons, hkeep, hfold]
      · rcases hmem with hmem | heq
        · exact .inl (List.mem_cons_of_mem c hmem)
        · exact .inr heq
      · rcases List.mem_cons.mp hd with rfl | hd
        · exact le_trans hle hb
        · exact hall d hd

/-- **The newest is kept**, in whatever order the values have arrived. -/
theorem foldl_keep {as : List α} (h : as ≠ []) :
    ∃ a ∈ as, as.foldl (keep rank) none = some a ∧ ∀ b ∈ as, rank b ≤ rank a := by
  obtain ⟨a, hfold, hmem, hall, _⟩ := foldl_keep_from rank none as (.inr h)
  rcases hmem with hmem | hnone
  · exact ⟨a, hmem, hfold, hall⟩
  · cases hnone

/-! ### The newest of a list -/

/-- The `n` values of highest rank, the highest first. -/
def newest (n : ℕ) (l : List α) : List α :=
  (l.insertionSort fun a b => rank b ≤ rank a).take n

/-- Values by falling rank. -/
abbrev Falling (rank : α → ρ) : α → α → Prop := fun a b => rank b ≤ rank a

instance : Std.Total (Falling rank) := ⟨fun a b => le_total (rank b) (rank a)⟩

instance : IsTrans α (Falling rank) := ⟨fun _ _ _ hab hbc => le_trans hbc hab⟩

theorem mem_of_mem_newest {n : ℕ} {l : List α} {a : α} (h : a ∈ newest rank n l) : a ∈ l :=
  (List.mem_insertionSort _).mp (List.mem_of_mem_take h)

theorem newest_subperm (n : ℕ) (l : List α) : List.Subperm (newest rank n l) l :=
  (List.take_sublist n _).subperm.trans (List.perm_insertionSort _ l).subperm

theorem length_take_of_mem_drop {n : ℕ} {l : List α} {a : α} (h : a ∈ l.drop n) :
    (l.take n).length = n := by
  have hpos : 0 < (l.drop n).length := List.length_pos_of_mem h
  rw [List.length_drop] at hpos
  rw [List.length_take]
  omega

theorem rank_le_of_take_drop {n : ℕ} {l : List α} (hsorted : l.Pairwise (Falling rank)) {a b : α}
    (hb : b ∈ l.take n) (ha : a ∈ l.drop n) : rank a ≤ rank b := by
  rw [← List.take_append_drop n l, List.pairwise_append] at hsorted
  exact hsorted.2.2 b hb a ha

/-- **What falls out has as many others at its rank or above as are kept.** -/
theorem length_above_of_not_mem_newest {n : ℕ} {l : List α} {a : α} (ha : a ∈ l)
    (hout : a ∉ newest rank n l) [DecidablePred fun b => rank a ≤ rank b ∧ b ≠ a] :
    n ≤ (l.filter fun b => rank a ≤ rank b ∧ b ≠ a).length := by
  have hperm := List.perm_insertionSort (Falling rank) l
  have hdrop : a ∈ (l.insertionSort (Falling rank)).drop n := by
    have hmem := hperm.symm.subset ha
    rw [← List.take_append_drop n (l.insertionSort (Falling rank)), List.mem_append] at hmem
    exact hmem.resolve_left hout
  have hall : ∀ b ∈ newest rank n l, decide (rank a ≤ rank b ∧ b ≠ a) = true := by
    intro b hb
    refine decide_eq_true ⟨?_, fun heq => hout (heq ▸ hb)⟩
    exact rank_le_of_take_drop rank (List.pairwise_insertionSort _ l) hb hdrop
  have hfilter := (newest_subperm rank n l).filter fun b => decide (rank a ≤ rank b ∧ b ≠ a)
  rw [List.filter_eq_self.mpr hall] at hfilter
  calc n = (newest rank n l).length := (length_take_of_mem_drop hdrop).symm
    _ ≤ _ := hfilter.length_le

end Newest
