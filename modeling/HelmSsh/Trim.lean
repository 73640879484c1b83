/-
# Trimming a text

What is left of a text without the blanks at its two ends, over any notion of a blank.

* `trim_eq_self` — a text that neither starts nor ends with a blank is left as it is.
* `mem_trim` — what is taken off is blank.
* `trim_congr` — notions that agree on the text take off the same.
* `trim_flatMap` — a text that is written in another way is trimmed before or after.
-/

import Mathlib.Tactic.Common

namespace Trim

variable {α : Type} {blank blank' : α → Bool} {text : List α} {c : α}

/-- The text without the blanks at its two ends. -/
def trim (blank : α → Bool) (text : List α) : List α :=
  ((text.dropWhile blank).reverse.dropWhile blank).reverse

theorem dropWhile_eq_self (h : ∀ c, text.head? = some c → blank c = false) :
    text.dropWhile blank = text := by
  cases text with
  | nil => rfl
  | cons c text => exact List.dropWhile_cons_of_neg (Bool.not_eq_true _ ▸ h c rfl)

/-- **A text that neither starts nor ends with a blank is left as it is.** -/
theorem trim_eq_self (hfirst : ∀ c, text.head? = some c → blank c = false)
    (hlast : ∀ c, text.getLast? = some c → blank c = false) : trim blank text = text := by
  have hreverse : ∀ c, text.reverse.head? = some c → blank c = false := by
    intro c hc
    rw [List.head?_reverse] at hc
    exact hlast c hc
  rw [trim, dropWhile_eq_self hfirst, dropWhile_eq_self hreverse, List.reverse_reverse]

/-- **What is taken off is blank.** -/
theorem mem_trim (hc : c ∈ text) : c ∈ trim blank text ∨ blank c = true := by
  have hgo : ∀ {l : List α}, c ∈ l → c ∈ l.dropWhile blank ∨ blank c = true := by
    intro l hl
    rw [← List.takeWhile_append_dropWhile (p := blank) (l := l)] at hl
    rcases List.mem_append.mp hl with hl | hl
    · exact Or.inr (List.all_eq_true.mp List.all_takeWhile c hl)
    · exact Or.inl hl
  rcases hgo hc with hdrop | hblank
  · rcases hgo (List.mem_reverse.mpr hdrop) with hdrop | hblank
    · exact Or.inl (List.mem_reverse.mpr hdrop)
    · exact Or.inr hblank
  · exact Or.inr hblank

theorem trim_concat (hc : blank c = true) : trim blank (text ++ [c]) = trim blank text := by
  rw [trim, trim, List.dropWhile_append]
  split_ifs with hnil
  · rw [List.isEmpty_iff.mp hnil, List.dropWhile_cons_of_pos hc]
    rfl
  · rw [List.reverse_concat, List.dropWhile_cons_of_pos hc]

/-- **Two notions of a blank that agree on the text.** -/
theorem trim_congr (h : ∀ c ∈ text, blank c = blank' c) : trim blank text = trim blank' text := by
  have hgo : ∀ {l : List α}, (∀ c ∈ l, blank c = blank' c) →
      l.dropWhile blank = l.dropWhile blank' := by
    intro l hl
    induction l with
    | nil => rfl
    | cons c l ih =>
      obtain ⟨hc, hrest⟩ := List.forall_mem_cons.mp hl
      rw [List.dropWhile_cons, List.dropWhile_cons, hc, ih hrest]
  rw [trim, trim, hgo h]
  congr 1
  refine hgo fun c hc => h c ?_
  exact (List.dropWhile_suffix _).subset (List.mem_reverse.mp hc)

/-- **What is left is a part of the text.** -/
theorem trim_infix (blank : α → Bool) (text : List α) : trim blank text <:+: text := by
  have hend : (text.dropWhile blank).reverse.dropWhile blank <:+ (text.dropWhile blank).reverse :=
    List.dropWhile_suffix _
  have hstart : text.dropWhile blank <:+ text := List.dropWhile_suffix _
  have hprefix := List.reverse_prefix.mpr hend
  rw [List.reverse_reverse] at hprefix
  exact hprefix.isInfix.trans hstart.isInfix

section Written

variable {f : α → List α}

/-- The start of a text whose blanks are written as they are, and whose other characters are written
without blanks. -/
theorem dropWhile_flatMap (hblank : ∀ c, blank c = true → f c = [c])
    (hsolid : ∀ c, blank c = false → f c ≠ [] ∧ ∀ d ∈ f c, blank d = false) (text : List α) :
    (text.flatMap f).dropWhile blank = (text.dropWhile blank).flatMap f := by
  induction text with
  | nil => rfl
  | cons c text ih =>
    rw [List.flatMap_cons]
    cases hc : blank c with
    | true =>
      rw [hblank c hc, List.singleton_append, List.dropWhile_cons_of_pos hc,
        List.dropWhile_cons_of_pos hc, ih]
    | false =>
      obtain ⟨hne, hf⟩ := hsolid c hc
      obtain ⟨d, part, hpart⟩ := List.exists_cons_of_ne_nil hne
      have hd : ¬ blank d = true := by
        rw [hf d (hpart ▸ List.mem_cons_self)]
        exact Bool.false_ne_true
      rw [hpart, List.cons_append, List.dropWhile_cons_of_neg hd,
        List.dropWhile_cons_of_neg (by rw [hc]; exact Bool.false_ne_true), List.flatMap_cons, hpart,
        List.cons_append]

/-- **A text is trimmed before or after it is written**, in such a way. -/
theorem trim_flatMap (hblank : ∀ c, blank c = true → f c = [c])
    (hsolid : ∀ c, blank c = false → f c ≠ [] ∧ ∀ d ∈ f c, blank d = false) (text : List α) :
    trim blank (text.flatMap f) = (trim blank text).flatMap f := by
  have hblank' : ∀ c, blank c = true → (f c).reverse = [c] := fun c hc =>
    congrArg List.reverse (hblank c hc)
  have hsolid' : ∀ c, blank c = false → (f c).reverse ≠ [] ∧ ∀ d ∈ (f c).reverse,
    blank d = false := by
    intro c hc
    obtain ⟨hne, hf⟩ := hsolid c hc
    exact ⟨fun h => hne (List.reverse_eq_nil_iff.mp h), fun d hd => hf d (List.mem_reverse.mp hd)⟩
  rw [trim, trim, dropWhile_flatMap hblank hsolid, List.reverse_flatMap]
  change (((text.dropWhile blank).reverse.flatMap fun c => (f c).reverse)
    |>.dropWhile blank).reverse = _
  rw [dropWhile_flatMap hblank' hsolid', List.reverse_flatMap]
  exact congrArg (List.flatMap · _) (funext fun c => List.reverse_reverse (f c))

end Written

end Trim
