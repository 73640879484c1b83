/-
# Words between blanks

A list is cut into words at the elements that are blank, and the words are joined again with
one blank between two.  Where two lists meet at a blank, the words of the whole are those of
the parts (`words_append_of_head`, `words_append_of_last`); so what is found in the joined
words of a part is found in those of the whole, with a blank before it or after it where
there are words on that side (`infix_join`, `prefix_join`, `suffix_join`).
-/

import Mathlib.Data.Nat.Notation
import Mathlib.Data.List.Infix
import Mathlib.Tactic.Common

namespace Words

variable {α : Type*}

/-- The words of a list: what is between blanks, without the empty ones. -/
def words (blank : α → Bool) (l : List α) : List (List α) :=
  (l.splitOnP blank).filter fun w => !w.isEmpty

/-- The words with one `space` between two. -/
def join (space : α) (ws : List (List α)) : List α :=
  [space].intercalate ws

section Words

variable {blank : α → Bool} {b : α} {l w x y : List α}

@[simp] theorem words_nil : words blank [] = [] := by
  simp [words]

theorem words_append_cons (x y : List α) (hb : blank b = true) :
    words blank (x ++ b :: y) = words blank x ++ words blank y := by
  rw [words, List.splitOnP_append_cons x y hb, List.filter_append]
  rfl

theorem words_cons_blank (y : List α) (hb : blank b = true) :
    words blank (b :: y) = words blank y := by
  have h := words_append_cons [] y hb
  rwa [List.nil_append, words_nil, List.nil_append] at h

theorem words_concat_blank (x : List α) (hb : blank b = true) :
    words blank (x ++ [b]) = words blank x := by
  rw [words_append_cons x [] hb, words_nil, List.append_nil]

/-- Where the second part starts with a blank, the words are those of the parts. -/
theorem words_append_of_head (x : List α) (hy : ∀ b ∈ y.head?, blank b = true) :
    words blank (x ++ y) = words blank x ++ words blank y := by
  cases y with
  | nil => rw [List.append_nil, words_nil, List.append_nil]
  | cons b y =>
    have hb : blank b = true := hy b rfl
    rw [words_append_cons x y hb, words_cons_blank y hb]

/-- Where the first part ends with a blank, the words are those of the parts. -/
theorem words_append_of_last (y : List α) (hx : ∀ b ∈ x.getLast?, blank b = true) :
    words blank (x ++ y) = words blank x ++ words blank y := by
  rcases List.eq_nil_or_concat x with rfl | ⟨x, b, rfl⟩
  · rw [List.nil_append, words_nil, List.nil_append]
  · rw [List.concat_eq_append] at hx ⊢
    have hb : blank b = true := hx b (List.getLast?_concat ..)
    rw [List.append_assoc, List.singleton_append, words_append_cons x y hb,
      words_concat_blank x hb]

theorem words_solid (hne : w ≠ []) (hw : ∀ c ∈ w, blank c = false) : words blank w = [w] := by
  rw [words, List.splitOnP_eq_singleton hw]
  cases w with
  | nil => exact absurd rfl hne
  | cons c w => rfl

theorem words_blanks (h : ∀ c ∈ l, blank c = true) : words blank l = [] := by
  induction l with
  | nil => exact words_nil
  | cons c l ih =>
    rw [words_cons_blank l (h c List.mem_cons_self)]
    exact ih fun d hd => h d (List.mem_cons_of_mem c hd)

end Words

section Join

variable {space : α} {p : List α} {P X Y : List (List α)}

/-- Two runs of words are joined with a blank between. -/
theorem join_append (hX : X ≠ []) (hY : Y ≠ []) :
    join space (X ++ Y) = join space X ++ space :: join space Y := by
  unfold join
  induction X with
  | nil => exact absurd rfl hX
  | cons w X ih =>
    cases X with
    | nil =>
      rw [List.singleton_append, List.intercalate_cons_of_ne_nil hY,
        List.intercalate_singleton, List.append_assoc, List.singleton_append]
    | cons v X =>
      rw [List.cons_append, List.intercalate_cons_of_ne_nil (by simp),
        ih (List.cons_ne_nil v X), List.intercalate_cons_cons]
      simp

/-- Words at the end leave the joined words as a first part. -/
theorem isPrefix_join (X Y : List (List α)) : join space X <+: join space (X ++ Y) := by
  by_cases hX : X = []
  · rw [hX]
    exact List.nil_prefix
  · by_cases hY : Y = []
    · rw [hY, List.append_nil]
    · rw [join_append hX hY]
      exact List.prefix_append _ _

/-- Words at the front leave the joined words as a last part. -/
theorem join_suffix (X Y : List (List α)) : join space Y <:+ join space (X ++ Y) := by
  by_cases hX : X = []
  · rw [hX, List.nil_append]
  · by_cases hY : Y = []
    · rw [hY]
      exact List.nil_suffix
    · rw [join_append hX hY]
      exact (List.suffix_cons space _).trans (List.suffix_append _ _)

/-- **What is in the joined words of a part is in those of the whole.** -/
theorem infix_join (h : p <:+: join space P) : p <:+: join space (X ++ P ++ Y) :=
  (h.trans (join_suffix X P).isInfix).trans (isPrefix_join (X ++ P) Y).isInfix

/-- What the part starts with is there behind a blank, when there are words before it. -/
theorem prefix_join (hX : X ≠ []) (hP : P ≠ []) (h : p <+: join space P) :
    space :: p <:+: join space (X ++ P ++ Y) := by
  refine List.IsInfix.trans ?_ (isPrefix_join (X ++ P) Y).isInfix
  rw [join_append hX hP]
  obtain ⟨t, ht⟩ := h
  exact ⟨join space X, t, by rw [← ht]; simp⟩

/-- What the part ends with is there before a blank, when there are words after it. -/
theorem suffix_join (hY : Y ≠ []) (hP : P ≠ []) (h : p <:+ join space P) :
    p ++ [space] <:+: join space (X ++ P ++ Y) := by
  rw [List.append_assoc]
  refine List.IsInfix.trans ?_ (join_suffix X (P ++ Y)).isInfix
  rw [join_append hP hY]
  obtain ⟨t, ht⟩ := h
  exact ⟨t, join space Y, by rw [← ht]; simp⟩

end Join

section Infix

variable {b x : α} {p l A B : List α}

/-- What does not hold an element is found on one side of it. -/
theorem infix_append_cons (hx : x ∉ p) : p <:+: A ++ x :: B ↔ p <:+: A ∨ p <:+: B := by
  constructor
  · rintro ⟨s, t, h⟩
    rw [List.append_assoc] at h
    rcases List.append_eq_append_iff.mp h with ⟨a, hA, hpt⟩ | ⟨a, hs, hB⟩
    · rcases List.append_eq_append_iff.mp hpt with ⟨b, ha, -⟩ | ⟨b, hp, hb⟩
      · exact .inl ⟨s, b, by rw [hA, ha, List.append_assoc]⟩
      · cases b with
        | nil => exact .inl ⟨s, [], by rw [hA, hp]; simp⟩
        | cons y b =>
          have hy : x = y := (List.cons.inj hb).1
          exact absurd (hp ▸ hy ▸ List.mem_append_right a List.mem_cons_self) hx
    · cases a with
      | nil =>
        cases p with
        | nil => exact .inl List.nil_infix
        | cons y p =>
          have hy : x = y := (List.cons.inj hB).1
          exact absurd (hy ▸ List.mem_cons_self) hx
      | cons y a =>
        exact .inr ⟨a, t, by rw [(List.cons.inj hB).2, List.append_assoc]; rfl⟩
  · rintro (h | h)
    · exact h.trans (List.prefix_append A _).isInfix
    · exact h.trans ((List.suffix_cons x B).trans (List.suffix_append A _)).isInfix

/-- What does not start with an element is found behind it. -/
theorem infix_cons_of_head (hne : p ≠ []) (hhead : p.head? ≠ some b) :
    p <:+: b :: l ↔ p <:+: l := by
  rw [List.infix_cons_iff]
  refine or_iff_right ?_
  rintro ⟨t, ht⟩
  cases p with
  | nil => exact hne rfl
  | cons y p => exact hhead (congrArg some (List.cons.inj ht).1)

theorem infix_concat_of_last (hne : p ≠ []) (hlast : p.getLast? ≠ some b) :
    p <:+: l ++ [b] ↔ p <:+: l := by
  rw [← List.reverse_infix, List.reverse_append, List.reverse_singleton, List.singleton_append,
    infix_cons_of_head (by simpa using hne) (by rwa [List.head?_reverse]), List.reverse_infix]

/-- A list without blanks is its own word, another one has the words of its two sides. -/
theorem solid_or_split (blank : α → Bool) (l : List α) :
    (∀ c ∈ l, blank c = false) ∨ ∃ b A B, blank b = true ∧ l = A ++ b :: B := by
  by_cases hl : ∃ b ∈ l, blank b = true
  · obtain ⟨b, hmem, hb⟩ := hl
    obtain ⟨A, B, hAB⟩ := List.append_of_mem hmem
    exact .inr ⟨b, A, B, hb, hAB⟩
  · refine .inl fun c hc => ?_
    by_contra hnot
    exact hl ⟨c, hc, Bool.not_eq_false _ ▸ hnot⟩

theorem exists_word_of_infix {blank : α → Bool} (hne : p ≠ []) (hp : ∀ c ∈ p, blank c = false)
    (h : p <:+: l) : ∃ w ∈ words blank l, p <:+: w := by
  induction hn : l.length using Nat.strongRecOn generalizing l with
  | ind n ih =>
    rcases solid_or_split blank l with hsolid | ⟨b, A, B, hb, rfl⟩
    · have hlne : l ≠ [] := fun heq => hne (List.eq_nil_of_infix_nil (heq ▸ h))
      exact ⟨l, by rw [words_solid hlne hsolid]; exact List.mem_singleton_self l, h⟩
    · have hbp : b ∉ p := fun hmem => absurd (hp b hmem) (by rw [hb]; decide)
      rw [List.length_append, List.length_cons] at hn
      rw [words_append_cons A B hb]
      rcases (infix_append_cons hbp).mp h with h | h
      · obtain ⟨w, hw, hpw⟩ := ih A.length (by omega) h rfl
        exact ⟨w, List.mem_append_left _ hw, hpw⟩
      · obtain ⟨w, hw, hpw⟩ := ih B.length (by omega) h rfl
        exact ⟨w, List.mem_append_right _ hw, hpw⟩

theorem blank_of_words_eq_nil {blank : α → Bool} (h : words blank l = []) {c : α} (hc : c ∈ l) :
    blank c = true := by
  by_contra hnot
  have hone : ∀ d ∈ [c], blank d = false := fun d hd => by
    rw [List.mem_singleton.mp hd]
    exact Bool.not_eq_true _ ▸ hnot
  obtain ⟨s, t, hst⟩ := List.append_of_mem hc
  have hin : [c] <:+: l := ⟨s, t, by rw [hst]; simp⟩
  obtain ⟨w, hw, -⟩ := exists_word_of_infix (List.cons_ne_nil c []) hone hin
  rw [h] at hw
  exact absurd hw List.not_mem_nil

theorem infix_of_mem_words {blank : α → Bool} {w : List α} (h : w ∈ words blank l) : w <:+: l := by
  induction hn : l.length using Nat.strongRecOn generalizing l with
  | ind n ih =>
    rcases solid_or_split blank l with hsolid | ⟨b, A, B, hb, rfl⟩
    · cases l with
      | nil =>
        rw [words_nil] at h
        exact absurd h List.not_mem_nil
      | cons c l =>
        rw [words_solid (List.cons_ne_nil c l) hsolid, List.mem_singleton] at h
        rw [h]
    · rw [List.length_append, List.length_cons] at hn
      rw [words_append_cons A B hb] at h
      rcases List.mem_append.mp h with h | h
      · exact (ih A.length (by omega) h rfl).trans (List.prefix_append A _).isInfix
      · exact (ih B.length (by omega) h rfl).trans
          ((List.suffix_cons b B).trans (List.suffix_append A _)).isInfix

end Infix

end Words
