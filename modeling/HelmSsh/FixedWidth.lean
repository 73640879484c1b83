/-
# Numbers in a fixed number of digits

Texts that are compared character by character order numbers of the same width as the numbers are
ordered (`digits_lt_iff`), and texts that start with parts of the same length by these parts first
(`append_lt_append_iff`).  A number whose last digits are zero may be cut there, to whatever length,
when what follows it is below every digit (`cut_lt_cut`).
-/

import Mathlib.Algebra.GroupWithZero.Nat
import Mathlib.Data.Nat.Notation
import Mathlib.Order.Nat
import Mathlib.Tactic.Common

namespace FixedWidth

/-! ### Texts compared part by part -/

/-- **Texts are compared by their first parts**, when these are as long as each other. -/
theorem append_lt_append_iff {a b s t : List Char} (hlength : a.length = b.length) :
    a ++ s < b ++ t ↔ a < b ∨ a = b ∧ s < t := by
  induction a generalizing b with
  | nil =>
    obtain rfl := List.length_eq_zero_iff.mp hlength.symm
    simp
  | cons c a ih =>
    cases b with
    | nil => cases hlength
    | cons d b =>
      rw [List.cons_append, List.cons_append, List.cons_lt_cons_iff, List.cons_lt_cons_iff,
        ih (Nat.succ.inj hlength)]
      constructor
      · rintro (hless | ⟨rfl, hless | ⟨rfl, hless⟩⟩)
        · exact Or.inl (Or.inl hless)
        · exact Or.inl (Or.inr ⟨rfl, hless⟩)
        · exact Or.inr ⟨rfl, hless⟩
      · rintro ((hless | ⟨rfl, hless⟩) | ⟨heq, hless⟩)
        · exact Or.inl hless
        · exact Or.inr ⟨rfl, Or.inl hless⟩
        · obtain ⟨rfl, rfl⟩ := List.cons.inj heq
          exact Or.inr ⟨rfl, Or.inr ⟨rfl, hless⟩⟩

/-! ### Numbers -/

/-- The digit of a number below ten. -/
def digit (n : ℕ) : Char :=
  Char.ofNat (48 + n)

/-- The last digits of a number, as many as asked for. -/
def digits : ℕ → ℕ → List Char
  | 0, _ => []
  | width + 1, n => digit (n / 10 ^ width % 10) :: digits width n

theorem digit_toNat {n : ℕ} (h : n < 10) : (digit n).toNat = 48 + n := by
  have hall : ∀ n < 10, (digit n).toNat = 48 + n := by decide
  exact hall n h

theorem digit_lt_iff {n m : ℕ} (hn : n < 10) (hm : m < 10) : digit n < digit m ↔ n < m := by
  rw [Char.lt_def, UInt32.lt_iff_toNat_lt]
  change (digit n).toNat < (digit m).toNat ↔ n < m
  rw [digit_toNat hn, digit_toNat hm]
  omega

theorem digit_inj {n m : ℕ} (hn : n < 10) (hm : m < 10) : digit n = digit m ↔ n = m := by
  refine ⟨fun h => ?_, congrArg digit⟩
  have htoNat := congrArg Char.toNat h
  rw [digit_toNat hn, digit_toNat hm] at htoNat
  omega

@[simp] theorem length_digits (width n : ℕ) : (digits width n).length = width := by
  induction width with
  | zero => rfl
  | succ width ih => rw [digits, List.length_cons, ih]

/-- More digits of a number than are written do not matter. -/
theorem digits_mod {width v : ℕ} (h : width ≤ v) (n : ℕ) :
    digits width (n % 10 ^ v) = digits width n := by
  induction width with
  | zero => rfl
  | succ width ih =>
    have hfirst : n % 10 ^ v / 10 ^ width % 10 = n / 10 ^ width % 10 := by
      obtain ⟨e, rfl⟩ := Nat.exists_eq_add_of_le h
      rw [Nat.add_assoc, Nat.pow_add, Nat.mod_mul_right_div_self]
      exact Nat.mod_mod_of_dvd _ ⟨10 ^ e, by rw [Nat.pow_add, Nat.pow_one]⟩
    rw [digits, digits, hfirst, ih (Nat.le_of_succ_le h)]

theorem digits_succ {width n : ℕ} (hn : n < 10 ^ (width + 1)) :
    digits (width + 1) n = digit (n / 10 ^ width) :: digits width (n % 10 ^ width) ∧
      n / 10 ^ width < 10 := by
  have hfirst : n / 10 ^ width < 10 := by
    rw [Nat.div_lt_iff_lt_mul (Nat.pow_pos (by decide)), Nat.mul_comm]
    exact hn
  rw [digits, Nat.mod_eq_of_lt hfirst, digits_mod (Nat.le_refl width)]
  exact ⟨rfl, hfirst⟩

/-- **Numbers of one width are ordered as their digits are.** -/
theorem digits_lt_iff {width n m : ℕ} (hn : n < 10 ^ width) (hm : m < 10 ^ width) :
    digits width n < digits width m ↔ n < m := by
  induction width generalizing n m with
  | zero =>
    obtain rfl : n = 0 := by omega
    obtain rfl : m = 0 := by omega
    simp [digits]
  | succ width ih =>
    have hpos : 0 < 10 ^ width := Nat.pow_pos (by decide)
    obtain ⟨hdn, hqn⟩ := digits_succ hn
    obtain ⟨hdm, hqm⟩ := digits_succ hm
    have hrest := ih (Nat.mod_lt n hpos) (Nat.mod_lt m hpos)
    have hn' := Nat.div_add_mod n (10 ^ width)
    have hm' := Nat.div_add_mod m (10 ^ width)
    have hrn := Nat.mod_lt n hpos
    have hrm := Nat.mod_lt m hpos
    rw [hdn, hdm, List.cons_lt_cons_iff, digit_lt_iff hqn hqm, digit_inj hqn hqm, hrest]
    generalize n / 10 ^ width = q at *
    generalize m / 10 ^ width = q' at *
    generalize n % 10 ^ width = r at *
    generalize m % 10 ^ width = r' at *
    rw [← hn', ← hm']
    constructor
    · rintro (hless | ⟨rfl, hless⟩)
      · have hstep : 10 ^ width * (q + 1) ≤ 10 ^ width * q' := Nat.mul_le_mul_left _ hless
        rw [Nat.mul_add, Nat.mul_one] at hstep
        omega
      · omega
    · intro hless
      rcases Nat.lt_trichotomy q q' with hq | rfl | hq
      · exact Or.inl hq
      · exact Or.inr ⟨rfl, by omega⟩
      · have hstep : 10 ^ width * (q' + 1) ≤ 10 ^ width * q := Nat.mul_le_mul_left _ hq
        rw [Nat.mul_add, Nat.mul_one] at hstep
        omega

/-- Different numbers of one width have different digits. -/
theorem digits_inj {width n m : ℕ} (hn : n < 10 ^ width) (hm : m < 10 ^ width) :
    digits width n = digits width m ↔ n = m := by
  refine ⟨fun h => ?_, congrArg (digits width)⟩
  rcases Nat.lt_trichotomy n m with hless | heq | hless
  · rw [← digits_lt_iff hn hm, h] at hless
    exact absurd hless (List.lt_irrefl _)
  · exact heq
  · rw [← digits_lt_iff hm hn, h] at hless
    exact absurd hless (List.lt_irrefl _)

theorem digits_append_lt_iff {width n m : ℕ} {s t : List Char} (hn : n < 10 ^ width)
    (hm : m < 10 ^ width) :
    digits width n ++ s < digits width m ++ t ↔ n < m ∨ n = m ∧ s < t := by
  rw [append_lt_append_iff (by simp), digits_lt_iff hn hm, digits_inj hn hm]

theorem digits_add (width v n : ℕ) :
    digits (width + v) n = digits width (n / 10 ^ v) ++ digits v n := by
  induction width with
  | zero => rw [Nat.zero_add, digits, List.nil_append]
  | succ width ih =>
    have hfirst : n / 10 ^ v / 10 ^ width = n / 10 ^ (width + v) := by
      rw [Nat.div_div_eq_div_mul, ← Nat.pow_add, Nat.add_comm v width]
    rw [Nat.succ_add, digits, digits, hfirst, ih, List.cons_append]

theorem eq_zero_of_mem_digits {width n : ℕ} (h : n % 10 ^ width = 0) {c : Char}
    (hc : c ∈ digits width n) : c = '0' := by
  rw [← digits_mod (Nat.le_refl width), h] at hc
  clear h
  induction width with
  | zero => cases hc
  | succ width ih =>
    rw [digits, Nat.zero_div] at hc
    rcases List.mem_cons.mp hc with rfl | hc
    · rfl
    · exact ih hc

/-! ### Numbers cut short -/

theorem zero_le_of_mem_digits {width n : ℕ} {c : Char} (h : c ∈ digits width n) : '0' ≤ c := by
  induction width with
  | zero => cases h
  | succ width ih =>
    rcases List.mem_cons.mp h with rfl | h
    · have hall : ∀ n < 10, '0' ≤ digit n := by decide
      exact hall _ (Nat.mod_lt _ (by decide))
    · exact ih h

theorem not_lt_zeros {a b : List Char} (hlength : a.length = b.length) (ha : ∀ c ∈ a, '0' ≤ c)
    (hb : ∀ c ∈ b, c = '0') : ¬ a < b := by
  induction a generalizing b with
  | nil =>
    obtain rfl := List.length_eq_zero_iff.mp hlength.symm
    exact List.lt_irrefl _
  | cons c a ih =>
    cases b with
    | nil => cases hlength
    | cons d b =>
      obtain rfl := hb d List.mem_cons_self
      rw [List.cons_lt_cons_iff]
      rintro (hless | ⟨-, hless⟩)
      · exact absurd hless (Char.not_lt.mpr (ha c List.mem_cons_self))
      · exact ih (Nat.succ.inj hlength) (fun c hc => ha c (List.mem_cons_of_mem _ hc))
          (fun c hc => hb c (List.mem_cons_of_mem _ hc)) hless

/-- **Zeros at the end may be left out**: before a character below all digits, texts of digits of
one length are ordered in the same way when each is cut where only zeros follow. -/
theorem cut_lt_cut {a b : List Char} {k k' : ℕ} {stop : Char} {s t : List Char}
    (hstop : stop < '0') (hlength : a.length = b.length) (ha : ∀ c ∈ a, '0' ≤ c)
    (hb : ∀ c ∈ b, '0' ≤ c) (hak : ∀ c ∈ a.drop k, c = '0') (hbk : ∀ c ∈ b.drop k', c = '0')
    (h : a < b) : a.take k ++ stop :: s < b.take k' ++ stop :: t := by
  induction a generalizing b k k' with
  | nil =>
    obtain rfl := List.length_eq_zero_iff.mp hlength.symm
    exact absurd h (List.lt_irrefl _)
  | cons c a ih =>
    cases b with
    | nil => cases hlength
    | cons d b =>
      have hlength' := Nat.succ.inj hlength
      have ha' : ∀ c ∈ a, '0' ≤ c := fun c hc => ha c (List.mem_cons_of_mem _ hc)
      have hb' : ∀ c ∈ b, '0' ≤ c := fun c hc => hb c (List.mem_cons_of_mem _ hc)
      cases k' with
      | zero => exact absurd h (not_lt_zeros hlength ha hbk)
      | succ k' =>
        cases k with
        | zero =>
          have hd : stop < d := by
            have hle := hb d List.mem_cons_self
            rw [Char.lt_def, UInt32.lt_iff_toNat_lt] at hstop ⊢
            rw [Char.le_def, UInt32.le_iff_toNat_le] at hle
            omega
          exact List.cons_lt_cons_iff.mpr (Or.inl hd)
        | succ k =>
          rw [List.take_succ_cons, List.take_succ_cons, List.cons_append, List.cons_append,
            List.cons_lt_cons_iff]
          rcases List.cons_lt_cons_iff.mp h with hless | ⟨rfl, hless⟩
          · exact Or.inl hless
          · exact Or.inr ⟨rfl, ih hlength' ha' hb' hak hbk hless⟩

end FixedWidth
