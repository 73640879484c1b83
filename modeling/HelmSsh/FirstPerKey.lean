/-
# The first of each kind

A list is gone through from its start, and of each kind of its elements only the first are kept,
as many as are allowed; others may be taken out as well, for a reason of their own.  What is taken
out is named by its key, and all of the list with that key goes.

* `filter_firstPerKey` — of each kind, the first are kept.
* `firstPerKey_filter` — what is kept of some kinds does not depend on the others.
* `filter_insertionSort` — a part of a list is sorted as it stands in the sorted list.
* `filter_taken_sublist`, `filter_taken` — what is left when the keys of the taken ones go, and
  that it is exactly the others when the keys are distinct.
-/

import Mathlib.Data.List.Sort
import Mathlib.Data.Nat.Notation
import Mathlib.Tactic.Common

namespace FirstPerKey

variable {α κ : Type*} [DecidableEq κ]

section Kinds

variable (kind : α → κ) (n : ℕ)

/-- The elements of which fewer than `n` of their kind stand before them, behind those of `seen`. -/
def firstPerKey (seen : List α) : List α → List α
  | [] => []
  | a :: rest =>
    if seen.countP (fun b => kind b = kind a) < n then a :: firstPerKey (a :: seen) rest
    else firstPerKey (a :: seen) rest

/-- **Of each kind, the first are kept.** -/
theorem filter_firstPerKey (k : κ) (seen l : List α) :
    (firstPerKey kind n seen l).filter (fun a => kind a = k)
      = (l.filter fun a => kind a = k).take (n - seen.countP fun a => kind a = k) := by
  induction l generalizing seen with
  | nil => simp [firstPerKey]
  | cons a rest ih =>
    have ih := ih (a :: seen)
    rw [firstPerKey]
    by_cases ha : kind a = k
    · have hcons (l : List α) : (a :: l).filter (fun b => kind b = k)
          = a :: l.filter fun b => kind b = k :=
        List.filter_cons_of_pos (decide_eq_true ha)
      have hcount : (a :: seen).countP (fun b => kind b = k)
          = (seen.countP fun b => kind b = k) + 1 :=
        List.countP_cons_of_pos (decide_eq_true ha)
      rw [hcount] at ih
      rw [ha, hcons]
      split_ifs with hroom
      · have hroom' : n - (seen.countP fun b => kind b = k)
            = n - ((seen.countP fun b => kind b = k) + 1) + 1 := by omega
        rw [hcons, hroom', List.take_succ_cons, ih]
      · have hfull : n - (seen.countP fun b => kind b = k) = 0 := by omega
        have hfull' : n - ((seen.countP fun b => kind b = k) + 1) = 0 := by omega
        rw [ih, hfull, hfull', List.take_zero, List.take_zero]
    · have hskip (l : List α) : (a :: l).filter (fun b => kind b = k)
          = l.filter fun b => kind b = k :=
        List.filter_cons_of_neg (by simpa using ha)
      have hcount : (a :: seen).countP (fun b => kind b = k) = seen.countP fun b => kind b = k :=
        List.countP_cons_of_neg (by simpa using ha)
      rw [hcount] at ih
      rw [hskip]
      split_ifs
      · rw [hskip, ih]
      · exact ih

/-- **What is kept of some kinds does not depend on the others.** -/
theorem firstPerKey_filter (q : κ → Bool) (seen l : List α) :
    (firstPerKey kind n seen l).filter (fun a => q (kind a))
      = firstPerKey kind n (seen.filter fun a => q (kind a)) (l.filter fun a => q (kind a)) := by
  induction l generalizing seen with
  | nil => rfl
  | cons a rest ih =>
    have ih := ih (a :: seen)
    by_cases ha : q (kind a) = true
    · have hcount : (seen.filter fun b => q (kind b)).countP (fun b => kind b = kind a)
          = seen.countP fun b => kind b = kind a := by
        rw [List.countP_filter]
        refine List.countP_congr fun b _ => ?_
        rw [Bool.and_eq_true_iff, decide_eq_true_iff]
        exact ⟨fun h => h.1, fun h => ⟨h, h ▸ ha⟩⟩
      rw [List.filter_cons_of_pos (p := fun b => q (kind b)) ha] at ih
      rw [List.filter_cons_of_pos (p := fun b => q (kind b)) ha, firstPerKey, firstPerKey, hcount]
      split_ifs
      · rw [List.filter_cons_of_pos (p := fun b => q (kind b)) ha, ih]
      · exact ih
    · rw [List.filter_cons_of_neg (p := fun b => q (kind b)) ha] at ih
      rw [List.filter_cons_of_neg (p := fun b => q (kind b)) ha, firstPerKey]
      split_ifs
      · rw [List.filter_cons_of_neg (p := fun b => q (kind b)) ha, ih]
      · exact ih

end Kinds

/-! ### Parts of a sorted list -/

section Sorting

variable (r : α → α → Prop) [DecidableRel r] (p : α → Bool)

theorem filter_orderedInsert [IsTrans α r] {a : α} {l : List α} (hl : l.Pairwise r) :
    (l.orderedInsert r a).filter p
      = if p a then (l.filter p).orderedInsert r a else l.filter p := by
  induction l with
  | nil =>
    cases ha : p a with
    | true => simp [ha]
    | false => simp [ha]
  | cons b l ih =>
    obtain ⟨hb, hl⟩ := List.pairwise_cons.mp hl
    have ih := ih hl
    by_cases hab : r a b
    · rw [List.orderedInsert_cons_of_le r l hab]
      cases ha : p a with
      | false =>
        rw [List.filter_cons_of_neg (by rw [ha]; exact Bool.false_ne_true),
          if_neg Bool.false_ne_true]
      | true =>
        rw [List.filter_cons_of_pos ha, if_pos rfl]
        have hleast : ∀ c ∈ (b :: l).filter p, r a c := by
          intro c hc
          rcases List.mem_cons.mp (List.mem_filter.mp hc).1 with rfl | hc
          · exact hab
          · exact trans_of r hab (hb c hc)
        cases hrest : (b :: l).filter p with
        | nil => rfl
        | cons c rest =>
          rw [List.orderedInsert_cons_of_le r rest (hleast c (hrest ▸ List.mem_cons_self))]
    · rw [List.orderedInsert_of_not_le r l hab]
      cases hpb : p b with
      | true =>
        rw [List.filter_cons_of_pos hpb, List.filter_cons_of_pos hpb, ih,
          List.orderedInsert_of_not_le r _ hab]
        split_ifs
        · rfl
        · rfl
      | false =>
        have hno : ¬ p b = true := by
          rw [hpb]
          exact Bool.false_ne_true
        rw [List.filter_cons_of_neg hno, List.filter_cons_of_neg hno, ih]

/-- **A part of a list is sorted as it stands in the sorted list.** -/
theorem filter_insertionSort [IsTrans α r] [Std.Total r] (l : List α) :
    (l.insertionSort r).filter p = (l.filter p).insertionSort r := by
  induction l with
  | nil => rfl
  | cons a l ih =>
    rw [List.insertionSort_cons, filter_orderedInsert r p (List.pairwise_insertionSort r l), ih]
    cases ha : p a with
    | true => rw [if_pos rfl, List.filter_cons_of_pos ha, List.insertionSort_cons]
    | false =>
      rw [if_neg Bool.false_ne_true,
        List.filter_cons_of_neg (by rw [ha]; exact Bool.false_ne_true)]

end Sorting

/-! ### Elements that are taken out by their keys -/

section Taken

variable (flag : List α → α → Bool) (key : α → κ)

/-- The elements that are picked, each by what stands before it. -/
def pick (seen : List α) : List α → List α
  | [] => []
  | a :: rest => if flag seen a then a :: pick (a :: seen) rest else pick (a :: seen) rest

variable {flag}

theorem pick_sublist (seen l : List α) : (pick flag seen l).Sublist l := by
  induction l generalizing seen with
  | nil => exact List.Sublist.refl []
  | cons a rest ih =>
    rw [pick]
    split_ifs
    · exact (ih (a :: seen)).cons_cons a
    · exact (ih (a :: seen)).cons a

theorem mem_pick_or {a : α} {l : List α} (seen : List α) (ha : a ∈ l) :
    a ∈ pick flag seen l ∨ a ∈ pick (fun seen a => !flag seen a) seen l := by
  induction l generalizing seen with
  | nil => cases ha
  | cons b rest ih =>
    rw [pick, pick]
    cases hflag : flag seen b with
    | true =>
      rw [if_pos rfl, if_neg (by simp)]
      rcases List.mem_cons.mp ha with rfl | ha
      · exact Or.inl List.mem_cons_self
      · exact (ih (b :: seen) ha).imp_left (List.mem_cons_of_mem b)
    | false =>
      rw [if_neg Bool.false_ne_true, Bool.not_false, if_pos rfl]
      rcases List.mem_cons.mp ha with rfl | ha
      · exact Or.inr List.mem_cons_self
      · exact (ih (b :: seen) ha).imp_right (List.mem_cons_of_mem b)

/-- **What is left when the keys of the picked elements go** is some of the others. -/
theorem filter_taken_sublist (seen l : List α) :
    (l.filter fun a => key a ∉ (pick flag seen l).map key).Sublist
      (pick (fun seen a => !flag seen a) seen l) := by
  induction l generalizing seen with
  | nil => exact List.Sublist.refl []
  | cons a rest ih =>
    have ih := ih (a :: seen)
    rw [pick, pick]
    cases hflag : flag seen a with
    | true =>
      rw [if_pos rfl, if_neg (by simp), List.map_cons,
        List.filter_cons_of_neg (by simp)]
      refine List.Sublist.trans (List.monotone_filter_right rest fun b hb => ?_) ih
      rw [decide_eq_true_iff] at hb ⊢
      exact fun h => hb (List.mem_cons_of_mem _ h)
    | false =>
      rw [if_neg Bool.false_ne_true, Bool.not_false, if_pos rfl, List.filter_cons]
      split_ifs
      · exact ih.cons_cons a
      · exact ih.cons a

/-- **With distinct keys, it is the others.** -/
theorem filter_taken {l : List α} (hkeys : (l.map key).Nodup) (seen : List α) :
    (l.filter fun a => key a ∉ (pick flag seen l).map key)
      = pick (fun seen a => !flag seen a) seen l := by
  induction l generalizing seen with
  | nil => rfl
  | cons a rest ih =>
    rw [List.map_cons, List.nodup_cons] at hkeys
    have ih := ih hkeys.2 (a :: seen)
    have hrest : ∀ b ∈ rest, key b ≠ key a := fun b hb heq =>
      hkeys.1 (heq ▸ List.mem_map_of_mem hb)
    rw [pick, pick]
    cases hflag : flag seen a with
    | true =>
      rw [if_pos rfl, if_neg (by simp), List.map_cons,
        List.filter_cons_of_neg (by simp), ← ih]
      refine List.filter_congr fun b hb => ?_
      simp [hrest b hb]
    | false =>
      have ha : key a ∉ (pick flag (a :: seen) rest).map key := fun h =>
        hkeys.1 (((pick_sublist (a :: seen) rest).map key).subset h)
      rw [if_neg Bool.false_ne_true, Bool.not_false, if_pos rfl,
        List.filter_cons_of_pos (by simpa using ha), ih]

end Taken

end FirstPerKey
