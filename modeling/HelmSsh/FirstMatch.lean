/-
# Changing the first match of a list

`iter_mut().find(..)` and an assignment: the first element that satisfies a predicate
is changed, or there is none.  What the change keeps of each match, it keeps of the list
(`map_modify`), and a value that sets the elements apart still does when the new one is
of no other element (`nodup_map_modify`).
-/

import Mathlib.Data.List.Nodup

namespace FirstMatch

variable {α β : Type*}

/-- The list with its first match changed, `none` when nothing matches. -/
def modify (p : α → Bool) (f : α → α) : List α → Option (List α)
  | [] => none
  | a :: as => if p a then some (f a :: as) else (modify p f as).map (a :: ·)

variable {as bs : List α} {f : α → α} {p : α → Bool}

theorem modify_eq_some (h : modify p f as = some bs) :
    ∃ as₁ a as₂, as = as₁ ++ a :: as₂ ∧ bs = as₁ ++ f a :: as₂ ∧ p a = true := by
  induction as generalizing bs with
  | nil => cases h
  | cons a as ih =>
    rw [modify] at h
    split_ifs at h with hp
    · obtain rfl := Option.some.inj h
      exact ⟨[], a, as, rfl, rfl, hp⟩
    · obtain ⟨cs, hcs, rfl⟩ := Option.map_eq_some_iff.mp h
      obtain ⟨as₁, b, as₂, rfl, rfl, hb⟩ := ih hcs
      exact ⟨a :: as₁, b, as₂, rfl, rfl, hb⟩

theorem modify_eq_none (h : modify p f as = none) :
    ∀ a ∈ as, p a = false := by
  induction as with
  | nil => exact nofun
  | cons a as ih =>
    rw [modify] at h
    split_ifs at h with hp
    intro b hb
    rcases List.mem_cons.mp hb with rfl | hb
    · simpa using hp
    · exact ih (Option.map_eq_none_iff.mp h) b hb

theorem map_modify {g : α → β}
    (hg : ∀ a, p a = true → g (f a) = g a) (h : modify p f as = some bs) :
    bs.map g = as.map g := by
  obtain ⟨as₁, a, as₂, rfl, rfl, hp⟩ := modify_eq_some h
  simp only [List.map_append, List.map_cons, hg a hp]

/-- The elements of the changed list are the changed one and old ones. -/
theorem mem_modify (h : modify p f as = some bs)
    {b : α} (hb : b ∈ bs) : b ∈ as ∨ ∃ a ∈ as, p a = true ∧ b = f a := by
  obtain ⟨as₁, a, as₂, rfl, rfl, hp⟩ := modify_eq_some h
  rcases List.mem_append.mp hb with hb | hb
  · exact .inl (List.mem_append_left _ hb)
  · rcases List.mem_cons.mp hb with rfl | hb
    · exact .inr ⟨a, List.mem_append_right _ List.mem_cons_self, hp, rfl⟩
    · exact .inl (List.mem_append_right _ (List.mem_cons_of_mem _ hb))

/-- The changed element is the one that a search finds. -/
theorem mem_modify_of_find? {a : α}
    (hfind : as.find? p = some a) (h : modify p f as = some bs) {b : α} (hb : b ∈ bs) :
    b ∈ as ∨ b = f a := by
  induction as generalizing bs with
  | nil => cases h
  | cons c as ih =>
    rw [modify] at h
    split_ifs at h with hp
    · rw [List.find?_cons_of_pos hp] at hfind
      obtain rfl := Option.some.inj hfind
      obtain rfl := Option.some.inj h
      rcases List.mem_cons.mp hb with rfl | hb
      · exact .inr rfl
      · exact .inl (List.mem_cons_of_mem _ hb)
    · rw [List.find?_cons_of_neg hp] at hfind
      obtain ⟨cs, hcs, rfl⟩ := Option.map_eq_some_iff.mp h
      rcases List.mem_cons.mp hb with rfl | hb
      · exact .inl List.mem_cons_self
      · exact (ih hfind hcs hb).imp_left (List.mem_cons_of_mem _)

/-- What looks for the matches finds the changed element, when it still matches. -/
theorem find?_modify_of_match
    (h : modify p f as = some bs) {b : α} (hf : ∀ a, f a = b) (hb : p b = true) :
    bs.find? p = some b := by
  induction as generalizing bs with
  | nil => cases h
  | cons a as ih =>
    rw [modify] at h
    split_ifs at h with hp
    · obtain rfl := Option.some.inj h
      rw [hf, List.find?_cons_of_pos hb]
    · obtain ⟨cs, hcs, rfl⟩ := Option.map_eq_some_iff.mp h
      rw [List.find?_cons_of_neg hp]
      exact ih hcs

/-- What looks for other elements finds what it found before. -/
theorem find?_modify_of_other {q : α → Bool}
    (h : modify p f as = some bs) (hold : ∀ a, p a = true → q a = false)
    (hnew : ∀ a, p a = true → q (f a) = false) : bs.find? q = as.find? q := by
  obtain ⟨as₁, a, as₂, rfl, rfl, hp⟩ := modify_eq_some h
  rw [List.find?_append, List.find?_append, List.find?_cons_of_neg, List.find?_cons_of_neg]
  · simp [hold a hp]
  · simp [hnew a hp]

/-- An element is found by its key when no two share one. -/
theorem find?_of_nodup {κ : Type*} [DecidableEq κ] {key : α → κ}
    (hkeys : (as.map key).Nodup) {a : α} (ha : a ∈ as) :
    as.find? (fun b => decide (key b = key a)) = some a := by
  induction as with
  | nil => cases ha
  | cons b as ih =>
    rw [List.map_cons, List.nodup_cons] at hkeys
    rcases List.mem_cons.mp ha with rfl | ha
    · exact List.find?_cons_of_pos (decide_eq_true rfl)
    · have hne : key b ≠ key a := fun heq => hkeys.1 (List.mem_map.mpr ⟨a, ha, heq.symm⟩)
      rw [List.find?_cons_of_neg (by simpa using hne)]
      exact ih hkeys.2 ha

/-- **The first match is found again**, changed, when the change keeps it a match. -/
theorem find?_modify_self (hf : ∀ a, p (f a) = p a)
    (h : modify p f as = some bs) : ∃ a, as.find? p = some a ∧ bs.find? p = some (f a) := by
  induction as generalizing bs with
  | nil => cases h
  | cons a as ih =>
    rw [modify] at h
    split_ifs at h with hp
    · obtain rfl := Option.some.inj h
      exact ⟨a, List.find?_cons_of_pos hp, List.find?_cons_of_pos ((hf a).trans hp)⟩
    · obtain ⟨cs, hcs, rfl⟩ := Option.map_eq_some_iff.mp h
      obtain ⟨b, hfind, hfound⟩ := ih hcs
      exact ⟨b, (List.find?_cons_of_neg hp).trans hfind, (List.find?_cons_of_neg hp).trans hfound⟩

/-- When the match is found by a key that no two elements share, and its new value is
not one of the others, the values stay apart. -/
theorem nodup_map_modify {κ : Type*} [DecidableEq κ] {key : α → κ} {k : κ}
    {g : α → β} (hkeys : (as.map key).Nodup) (hg : (as.map g).Nodup)
    (hnew : ∀ a ∈ as, key a ≠ k → ∀ b, g a ≠ g (f b))
    (h : modify (fun a => decide (key a = k)) f as = some bs) : (bs.map g).Nodup := by
  obtain ⟨as₁, a, as₂, rfl, rfl, hp⟩ := modify_eq_some h
  rw [decide_eq_true_eq] at hp
  rw [List.map_append, List.map_cons, List.nodup_middle, List.nodup_cons] at hkeys hg ⊢
  refine ⟨fun hmem => ?_, hg.2⟩
  rw [← List.map_append] at hmem hkeys
  obtain ⟨b, hb, heq⟩ := List.mem_map.mp hmem
  have hother : key b ≠ k := by
    intro hk
    refine hkeys.1 (List.mem_map.mpr ⟨b, hb, ?_⟩)
    rw [hk, hp]
  have hbas : b ∈ as₁ ++ a :: as₂ :=
    List.mem_append.mpr ((List.mem_append.mp hb).imp_right (List.mem_cons_of_mem a))
  exact hnew b hbas hother a heq

end FirstMatch
