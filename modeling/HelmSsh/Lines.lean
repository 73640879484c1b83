/-
# Marks at the start of a line

A sequence in which one symbol ends a line, and a mark that does not contain that symbol.

* `Lines.complete` — the lines of a sequence that are ended; `Lines.induction` goes from line to
  line.
* `Lines.Marks` — where the mark stands at the start of a line.  `marks_line`: it stands at the
  front, or in the lines after the first.
* `Lines.isFirst_line` — so the first place where it stands is found line by line.
* `Lines.position` — the first place where a sequence is found in another one, wherever on a line.
-/

import Mathlib.Data.List.Infix
import Mathlib.Tactic.Common
import Mathlib.Data.Nat.Notation

namespace Lines

variable {α : Type}

/-! ### Lines that are ended -/

section Complete

variable [DecidableEq α] {ends : α} {line rest s : List α}

/-- The lines that are ended, without what ends them. -/
def complete (ends : α) (s : List α) : List (List α) :=
  (s.splitOn ends).dropLast

theorem complete_of_not_mem (h : ends ∉ s) : complete ends s = [] := by
  rw [complete, List.splitOn_eq_singleton h]
  rfl

theorem complete_line (h : ends ∉ line) :
    complete ends (line ++ ends :: rest) = line :: complete ends rest := by
  rw [complete, List.splitOn_append_cons_self, List.splitOn_eq_singleton h, List.singleton_append]
  exact List.dropLast_cons_of_ne_nil (List.splitOn_ne_nil ends rest)

/-- **From line to line.** -/
theorem induction (ends : α) {motive : List α → Prop}
    (last : ∀ s, ends ∉ s → motive s)
    (line : ∀ line rest, ends ∉ line → motive rest → motive (line ++ ends :: rest))
    (s : List α) : motive s := by
  induction hn : s.length using Nat.strongRecOn generalizing s with
  | _ n ih =>
    by_cases hmem : ends ∈ s
    · obtain ⟨front, rest, hs, hfront⟩ := List.eq_append_cons_of_mem hmem
      rw [hs]
      refine line front rest hfront (ih rest.length ?_ rest rfl)
      rw [← hn, hs, List.length_append, List.length_cons]
      omega
    · exact last s hmem

end Complete

/-! ### Marks -/

section Marks

variable {ends : α} {mark line rest s : List α} {i j : ℕ}

/-- The mark stands here, at the start of a line. -/
def Marks (ends : α) (mark s : List α) (i : ℕ) : Prop :=
  (i = 0 ∨ s[i - 1]? = some ends) ∧ mark <+: s.drop i

/-- The first place where it stands. -/
def IsFirst (ends : α) (mark s : List α) (i : ℕ) : Prop :=
  Marks ends mark s i ∧ ∀ j, j < i → ¬ Marks ends mark s j

theorem IsFirst.unique (hi : IsFirst ends mark s i) (hj : IsFirst ends mark s j) : i = j := by
  rcases Nat.lt_trichotomy i j with hlt | heq | hgt
  · exact absurd hi.1 (hj.2 i hlt)
  · exact heq
  · exact absurd hj.1 (hi.2 j hgt)

/-- A mark without an end of a line is in the first line, if it is at the front. -/
theorem prefix_line (hmark : ends ∉ mark) :
    mark <+: line ++ ends :: rest ↔ mark <+: line := by
  constructor
  · intro h
    by_contra hnot
    have hlong : line.length < mark.length := by
      by_contra hle
      exact hnot (List.prefix_of_prefix_length_le h (List.prefix_append _ _) (by omega))
    obtain ⟨t, ht⟩ := h
    have hget : (mark ++ t)[line.length]? = some ends := by
      rw [ht, List.getElem?_append_right (Nat.le_refl _), Nat.sub_self]
      rfl
    rw [List.getElem?_append_left hlong] at hget
    exact hmark (List.mem_of_getElem? hget)
  · exact fun h => h.trans (List.prefix_append _ _)

/-- **A mark stands at the front, or after the first line.** -/
theorem marks_line (hmark : ends ∉ mark) (hline : ends ∉ line) :
    Marks ends mark (line ++ ends :: rest) i ↔
      (i = 0 ∧ mark <+: line) ∨
        ∃ j, i = line.length + 1 + j ∧ Marks ends mark rest j := by
  have hdrop : ∀ j, (line ++ ends :: rest).drop (line.length + 1 + j) = rest.drop j := by
    intro j
    rw [Nat.add_assoc, List.drop_length_add_append, Nat.add_comm 1 j]
    rfl
  constructor
  · rintro ⟨rfl | hstart, hfound⟩
    · exact Or.inl ⟨rfl, (prefix_line hmark).mp hfound⟩
    · rcases Nat.lt_or_ge (i - 1) line.length with hin | hout
      · rw [List.getElem?_append_left hin] at hstart
        exact absurd (List.mem_of_getElem? hstart) hline
      · by_cases hzero : i = 0
        · subst hzero
          exact Or.inl ⟨rfl, (prefix_line hmark).mp hfound⟩
        · obtain ⟨j, rfl⟩ : ∃ j, i = line.length + 1 + j := ⟨i - line.length - 1, by omega⟩
          rw [hdrop] at hfound
          refine Or.inr ⟨j, rfl, ?_, hfound⟩
          by_cases hj : j = 0
          · exact Or.inl hj
          · rw [List.getElem?_append_right hout] at hstart
            obtain ⟨k, rfl⟩ := Nat.exists_eq_succ_of_ne_zero hj
            have hk : line.length + 1 + (k + 1) - 1 - line.length = k + 1 := by omega
            rw [hk, List.getElem?_cons_succ] at hstart
            exact Or.inr hstart
  · rintro (⟨rfl, hfound⟩ | ⟨j, rfl, hstart, hfound⟩)
    · exact ⟨Or.inl rfl, (prefix_line hmark).mpr hfound⟩
    · refine ⟨Or.inr ?_, by rwa [hdrop]⟩
      rw [List.getElem?_append_right (by omega)]
      rcases hstart with rfl | hstart
      · have hk : line.length + 1 + 0 - 1 - line.length = 0 := by omega
        rw [hk]
        rfl
      · by_cases hj : j = 0
        · subst hj
          have hk : line.length + 1 + 0 - 1 - line.length = 0 := by omega
          rw [hk]
          rfl
        · have hk : line.length + 1 + j - 1 - line.length = (j - 1) + 1 := by omega
          rw [hk, List.getElem?_cons_succ]
          exact hstart

/-- In one line, a mark stands at the front or nowhere. -/
theorem marks_of_not_mem (h : ends ∉ s) : Marks ends mark s i ↔ i = 0 ∧ mark <+: s := by
  constructor
  · rintro ⟨rfl | hstart, hfound⟩
    · exact ⟨rfl, hfound⟩
    · exact absurd (List.mem_of_getElem? hstart) h
  · rintro ⟨rfl, hfound⟩
    exact ⟨Or.inl rfl, hfound⟩

theorem isFirst_zero (h : mark <+: s) : IsFirst ends mark s 0 :=
  ⟨⟨Or.inl rfl, h⟩, fun _ hj => absurd hj (Nat.not_lt_zero _)⟩

/-- **A first line without the mark is passed over.** -/
theorem isFirst_line (hmark : ends ∉ mark) (hline : ends ∉ line) (hnot : ¬ mark <+: line) :
    IsFirst ends mark (line ++ ends :: rest) i ↔
      ∃ j, i = line.length + 1 + j ∧ IsFirst ends mark rest j := by
  have hmarks : ∀ k, Marks ends mark (line ++ ends :: rest) k ↔
      ∃ j, k = line.length + 1 + j ∧ Marks ends mark rest j :=
    fun k => (marks_line hmark hline).trans (or_iff_right fun h => hnot h.2)
  constructor
  · rintro ⟨hi, hleast⟩
    obtain ⟨j, rfl, hj⟩ := (hmarks i).mp hi
    exact ⟨j, rfl, hj, fun k hk hmarked =>
      hleast (line.length + 1 + k) (by omega) ((hmarks _).mpr ⟨k, rfl, hmarked⟩)⟩
  · rintro ⟨j, rfl, hj, hleast⟩
    refine ⟨(hmarks _).mpr ⟨j, rfl, hj⟩, fun k hk hmarked => ?_⟩
    obtain ⟨k, rfl, hkm⟩ := (hmarks k).mp hmarked
    exact hleast k (by omega) hkm

end Marks

/-! ### Finding a sequence -/

section Position

variable {haystack needle : List α} {i : ℕ}

theorem take_eq_iff : (haystack.drop i).take needle.length = needle ↔ needle <+: haystack.drop i :=
  ⟨fun h => List.prefix_iff_eq_take.mpr h.symm, fun h => (List.prefix_iff_eq_take.mp h).symm⟩

variable [DecidableEq α]

/-- The first window that equals the needle. -/
def position (haystack needle : List α) : Option ℕ :=
  (List.range (haystack.length + 1 - needle.length)).find? fun i =>
    (haystack.drop i).take needle.length = needle

/-- Where the needle is found, and that it is not found before. -/
theorem position_eq_some (h : position haystack needle = some i) :
    needle <+: haystack.drop i ∧ ∀ j, j < i → ¬ needle <+: haystack.drop j := by
  rw [position, List.find?_range_eq_some] at h
  obtain ⟨hfound, -, hbefore⟩ := h
  refine ⟨take_eq_iff.mp (of_decide_eq_true hfound), fun j hj hstarts => ?_⟩
  have hnot := hbefore j hj
  rw [take_eq_iff.mpr hstarts] at hnot
  exact absurd hnot (by simp)

theorem position_eq_none (hneedle : needle ≠ []) (h : position haystack needle = none) (i : ℕ) :
    ¬ needle <+: haystack.drop i := by
  intro hstarts
  have hlen := hstarts.length_le
  have hpos := List.length_pos_iff.mpr hneedle
  rw [List.length_drop] at hlen
  rw [position, List.find?_range_eq_none] at h
  have hnot := h i (by omega)
  rw [take_eq_iff.mpr hstarts] at hnot
  exact absurd hnot (by simp)

end Position

end Lines
