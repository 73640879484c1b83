/-
# UTF-8, as the standard library checks it

Which bytes are a text, and what `core::str::from_utf8` says of bytes that are not one: how much
of them is valid and how long the invalid sequence after it is.  All goes by one table, of the
bytes that may follow a first byte (`tails`).

* `head` — what is at the front of some bytes: a character, a sequence that no character starts
  with, or a beginning that may still become one.  More bytes do not change what is decided
  (`head_append`), and at most three bytes are undecided (`head_incomplete`).
* `head_encode`, `exists_char` — what is taken for a character are the encodings of characters.
* `firstError` — the loop of `run_utf8_validation`; `Wellformed` — it finds no error.
  `wellformed_iff`: these are the encodings of the lists of characters.

`HelmSsh.Utf8.Strings` has the texts themselves and how bytes that are not one are repaired.
-/

import Mathlib.Data.List.Basic
import Mathlib.Data.List.TakeDrop
import Mathlib.Tactic.Common

namespace Utf8

/-! ### The table -/

/-- The values of a byte that goes on a character. -/
def continuation : ℕ × ℕ := (0x80, 0xBF)

/-- The values of the bytes after a first byte, or nothing when no character starts with it. -/
def tails (first : UInt8) : Option (List (ℕ × ℕ)) :=
  if first.toNat < 0x80 then some []
  else if 0xC2 ≤ first.toNat ∧ first.toNat ≤ 0xDF then some [continuation]
  else if first.toNat = 0xE0 then some [(0xA0, 0xBF), continuation]
  else if 0xE1 ≤ first.toNat ∧ first.toNat ≤ 0xEC then some [continuation, continuation]
  else if first.toNat = 0xED then some [(0x80, 0x9F), continuation]
  else if 0xEE ≤ first.toNat ∧ first.toNat ≤ 0xEF then some [continuation, continuation]
  else if first.toNat = 0xF0 then some [(0x90, 0xBF), continuation, continuation]
  else if 0xF1 ≤ first.toNat ∧ first.toNat ≤ 0xF3 then
    some [continuation, continuation, continuation]
  else if first.toNat = 0xF4 then some [(0x80, 0x8F), continuation, continuation]
  else none

/-- What is at the front of some bytes. -/
inductive Head where
  /-- A character of so many bytes. -/
  | char (len : ℕ)
  /-- So many bytes that no character goes on from. -/
  | invalid (len : ℕ)
  /-- The bytes end inside what may become a character. -/
  | incomplete
  deriving DecidableEq

/-- The bytes after the first, against their values. -/
def matchTails (seen : ℕ) : List (ℕ × ℕ) → List UInt8 → Head
  | [], _ => .char seen
  | _ :: _, [] => .incomplete
  | (lo, hi) :: ranges, b :: bs =>
    if lo ≤ b.toNat ∧ b.toNat ≤ hi then matchTails (seen + 1) ranges bs else .invalid seen

/-- What is at the front of the bytes. -/
def head : List UInt8 → Head
  | [] => .incomplete
  | b :: bs =>
    match tails b with
    | none => .invalid 1
    | some ranges => matchTails 1 ranges bs

section Rows

variable {b : UInt8}

theorem tails_one (h : b.toNat < 0x80) : tails b = some [] := by
  rw [tails, if_pos h]

theorem tails_two (h : 0xC2 ≤ b.toNat ∧ b.toNat ≤ 0xDF) : tails b = some [continuation] := by
  rw [tails, if_neg (by omega), if_pos h]

/-- The first byte of three: the second makes neither too long a form nor a surrogate. -/
theorem tails_three (h : 0xE0 ≤ b.toNat ∧ b.toNat ≤ 0xEF) :
    ∃ range, tails b = some [range, continuation] ∧
      ∀ x, range.1 ≤ x ∧ x ≤ range.2 ↔ 0x80 ≤ x ∧ x ≤ 0xBF ∧
        (b.toNat = 0xE0 → 0xA0 ≤ x) ∧ (b.toNat = 0xED → x ≤ 0x9F) := by
  unfold tails
  rw [if_neg (by omega), if_neg (by omega)]
  by_cases he0 : b.toNat = 0xE0
  · rw [if_pos he0]
    exact ⟨_, rfl, fun x => by dsimp only; omega⟩
  rw [if_neg he0]
  by_cases he1 : 0xE1 ≤ b.toNat ∧ b.toNat ≤ 0xEC
  · rw [if_pos he1, continuation]
    exact ⟨_, rfl, fun x => by dsimp only; omega⟩
  rw [if_neg he1]
  by_cases hed : b.toNat = 0xED
  · rw [if_pos hed]
    exact ⟨_, rfl, fun x => by dsimp only; omega⟩
  rw [if_neg hed, if_pos (by omega), continuation]
  exact ⟨_, rfl, fun x => by dsimp only; omega⟩

/-- The first byte of four: the second makes neither too long a form nor a character above the
last one. -/
theorem tails_four (h : 0xF0 ≤ b.toNat ∧ b.toNat ≤ 0xF4) :
    ∃ range, tails b = some [range, continuation, continuation] ∧
      ∀ x, range.1 ≤ x ∧ x ≤ range.2 ↔ 0x80 ≤ x ∧ x ≤ 0xBF ∧
        (b.toNat = 0xF0 → 0x90 ≤ x) ∧ (b.toNat = 0xF4 → x ≤ 0x8F) := by
  unfold tails
  rw [if_neg (by omega), if_neg (by omega), if_neg (by omega), if_neg (by omega),
    if_neg (by omega), if_neg (by omega)]
  by_cases hf0 : b.toNat = 0xF0
  · rw [if_pos hf0]
    exact ⟨_, rfl, fun x => by dsimp only; omega⟩
  rw [if_neg hf0]
  by_cases hf1 : 0xF1 ≤ b.toNat ∧ b.toNat ≤ 0xF3
  · rw [if_pos hf1, continuation]
    exact ⟨_, rfl, fun x => by dsimp only; omega⟩
  rw [if_neg hf1, if_pos (by omega)]
  exact ⟨_, rfl, fun x => by dsimp only; omega⟩

theorem tails_none (h : (0x80 ≤ b.toNat ∧ b.toNat < 0xC2) ∨ 0xF4 < b.toNat) : tails b = none := by
  rw [tails, if_neg (by omega), if_neg (by omega), if_neg (by omega), if_neg (by omega),
    if_neg (by omega), if_neg (by omega), if_neg (by omega), if_neg (by omega), if_neg (by omega)]

theorem row_cases (b : UInt8) :
    b.toNat < 0x80 ∨ (0xC2 ≤ b.toNat ∧ b.toNat ≤ 0xDF) ∨ (0xE0 ≤ b.toNat ∧ b.toNat ≤ 0xEF) ∨
      (0xF0 ≤ b.toNat ∧ b.toNat ≤ 0xF4) ∨
      ((0x80 ≤ b.toNat ∧ b.toNat < 0xC2) ∨ 0xF4 < b.toNat) := by
  omega

/-- A character has at most three bytes after the first. -/
theorem length_le_of_tails {ranges : List (ℕ × ℕ)} (h : tails b = some ranges) :
    ranges.length ≤ 3 := by
  rcases row_cases b with hone | htwo | hthree | hfour | hnone
  · rw [tails_one hone] at h
    cases h
    decide
  · rw [tails_two htwo] at h
    cases h
    decide
  · obtain ⟨range, htails, -⟩ := tails_three hthree
    rw [htails] at h
    cases h
    exact Nat.le_succ 2
  · obtain ⟨range, htails, -⟩ := tails_four hfour
    rw [htails] at h
    cases h
    exact Nat.le_refl 3
  · rw [tails_none hnone] at h
    cases h

end Rows

variable {bs : List UInt8}

/-- What is taken off has at least the bytes that were seen, and no byte that is not there. -/
theorem matchTails_bounds {seen n : ℕ} {ranges : List (ℕ × ℕ)}
    (h : matchTails seen ranges bs = .char n ∨ matchTails seen ranges bs = .invalid n) :
    seen ≤ n ∧ n ≤ seen + bs.length := by
  induction ranges generalizing seen bs with
  | nil =>
    rcases h with h | h
    · cases h
      omega
    · cases h
  | cons range ranges ih =>
    cases bs with
    | nil => rcases h with h | h <;> cases h
    | cons b bs =>
      rw [matchTails] at h
      rw [List.length_cons]
      split at h
      · have := ih h
        omega
      · rcases h with h | h
        · cases h
        · cases h
          omega

/-- Bytes that end inside a character are fewer than it has. -/
theorem matchTails_incomplete {seen : ℕ} {ranges : List (ℕ × ℕ)}
    (h : matchTails seen ranges bs = .incomplete) : bs.length < ranges.length := by
  induction ranges generalizing seen bs with
  | nil => cases h
  | cons range ranges ih =>
    cases bs with
    | nil => exact Nat.succ_pos _
    | cons b bs =>
      rw [matchTails] at h
      split at h
      · have := ih h
        rw [List.length_cons, List.length_cons]
        omega
      · cases h

/-- Once it is decided what the bytes start with, more bytes do not change it. -/
theorem matchTails_append {seen : ℕ} {ranges : List (ℕ × ℕ)} (more : List UInt8)
    (h : matchTails seen ranges bs ≠ .incomplete) :
    matchTails seen ranges (bs ++ more) = matchTails seen ranges bs := by
  induction ranges generalizing seen bs with
  | nil => rfl
  | cons range ranges ih =>
    cases bs with
    | nil => exact absurd rfl h
    | cons b bs =>
      rw [List.cons_append, matchTails, matchTails]
      rw [matchTails] at h
      split
      · rename_i hb
        rw [if_pos hb] at h
        exact ih h
      · rfl

theorem head_of_tails_none {b : UInt8} (bs : List UInt8) (h : tails b = none) :
    head (b :: bs) = .invalid 1 := by
  rw [head, h]

theorem head_of_tails {b : UInt8} {ranges : List (ℕ × ℕ)} (bs : List UInt8)
    (h : tails b = some ranges) : head (b :: bs) = matchTails 1 ranges bs := by
  rw [head, h]

/-- What the bytes start with is seen from its own bytes alone. -/
theorem head_append (more : List UInt8) (h : head bs ≠ .incomplete) :
    head (bs ++ more) = head bs := by
  cases bs with
  | nil => exact absurd rfl h
  | cons b bs =>
    rw [List.cons_append]
    cases htails : tails b with
    | none => rw [head_of_tails_none _ htails, head_of_tails_none _ htails]
    | some ranges =>
      rw [head_of_tails _ htails] at h
      rw [head_of_tails _ htails, head_of_tails _ htails, matchTails_append more h]

/-- What is taken off has at least one byte, and they are all there. -/
theorem head_bounds {n : ℕ} (h : head bs = .char n ∨ head bs = .invalid n) :
    1 ≤ n ∧ n ≤ bs.length := by
  cases bs with
  | nil => rcases h with h | h <;> cases h
  | cons b bs =>
    rw [List.length_cons]
    cases htails : tails b with
    | none =>
      rw [head_of_tails_none _ htails] at h
      rcases h with h | h
      · cases h
      · cases h
        omega
    | some ranges =>
      rw [head_of_tails _ htails] at h
      have := matchTails_bounds h
      omega

/-- **At most three bytes are undecided.** -/
theorem head_incomplete (h : head bs = .incomplete) : bs.length ≤ 3 := by
  cases bs with
  | nil => exact Nat.zero_le _
  | cons b bs =>
    cases htails : tails b with
    | none =>
      rw [head_of_tails_none _ htails] at h
      cases h
    | some ranges =>
      rw [head_of_tails _ htails] at h
      have hshort := matchTails_incomplete h
      have := length_le_of_tails htails
      rw [List.length_cons]
      omega

/-! ### Characters -/

theorem toNat_ofNat {n : ℕ} (h : n < 256) : (UInt8.ofNat n).toNat = n := by
  rw [UInt8.toNat_ofNat', Nat.mod_eq_of_lt h]

theorem matchTails_cons {seen : ℕ} {range : ℕ × ℕ} {ranges : List (ℕ × ℕ)} {b : UInt8}
    (bs : List UInt8) (h : range.1 ≤ b.toNat ∧ b.toNat ≤ range.2) :
    matchTails seen (range :: ranges) (b :: bs) = matchTails (seen + 1) ranges bs := by
  rw [matchTails, if_pos h]

theorem matchTails_continuation {seen n : ℕ} {ranges : List (ℕ × ℕ)} (bs : List UInt8) :
    matchTails seen (continuation :: ranges) (UInt8.ofNat (n % 0x40 + 0x80) :: bs)
      = matchTails (seen + 1) ranges bs := by
  refine matchTails_cons bs ?_
  rw [toNat_ofNat (by omega), continuation]
  dsimp only
  omega

/-- **The encoding of a character is one.** -/
theorem head_encode (c : Char) (more : List UInt8) :
    head (String.utf8EncodeChar c ++ more) = .char (String.utf8EncodeChar c).length := by
  have hvalid : c.val.toNat < 0xD800 ∨ (0xDFFF < c.val.toNat ∧ c.val.toNat < 0x110000) := c.valid
  unfold String.utf8EncodeChar
  generalize c.val.toNat = v at hvalid ⊢
  dsimp only
  by_cases hone : v ≤ 0x7f
  · have hfirst := toNat_ofNat (show v < 256 by omega)
    rw [if_pos hone]
    exact head_of_tails _ (tails_one (by omega))
  rw [if_neg hone]
  by_cases htwo : v ≤ 0x7ff
  · have hfirst := toNat_ofNat (show v / 64 % 0x20 + 0xc0 < 256 by omega)
    rw [if_pos htwo]
    exact (head_of_tails _ (tails_two (by omega))).trans (matchTails_continuation more)
  rw [if_neg htwo]
  by_cases hthree : v ≤ 0xffff
  · have hfirst := toNat_ofNat (show v / 4096 % 0x10 + 0xe0 < 256 by omega)
    have hsecond := toNat_ofNat (show v / 64 % 0x40 + 0x80 < 256 by omega)
    rw [if_pos hthree]
    obtain ⟨range, htails, hrange⟩ := tails_three (b := UInt8.ofNat (v / 4096 % 0x10 + 0xe0))
      (by omega)
    exact (head_of_tails _ htails).trans
      ((matchTails_cons _ ((hrange _).mpr (by omega))).trans (matchTails_continuation more))
  · have hfirst := toNat_ofNat (show v / 262144 % 0x08 + 0xf0 < 256 by omega)
    have hsecond := toNat_ofNat (show v / 4096 % 0x40 + 0x80 < 256 by omega)
    rw [if_neg hthree]
    obtain ⟨range, htails, hrange⟩ := tails_four (b := UInt8.ofNat (v / 262144 % 0x08 + 0xf0))
      (by omega)
    exact (head_of_tails _ htails).trans ((matchTails_cons _ ((hrange _).mpr (by omega))).trans
      ((matchTails_continuation _).trans (matchTails_continuation more)))

theorem matchTails_eq_char {seen n : ℕ} {range : ℕ × ℕ} {ranges : List (ℕ × ℕ)}
    (h : matchTails seen (range :: ranges) bs = .char n) :
    ∃ b bs', bs = b :: bs' ∧ (range.1 ≤ b.toNat ∧ b.toNat ≤ range.2) ∧
      matchTails (seen + 1) ranges bs' = .char n := by
  cases bs with
  | nil => cases h
  | cons b bs =>
    rw [matchTails] at h
    split at h
    · rename_i hb
      exact ⟨b, bs, rfl, hb, h⟩
    · cases h

theorem exists_toNat {v : ℕ} (h : v < 0xD800 ∨ (0xDFFF < v ∧ v < 0x110000)) :
    ∃ c : Char, c.val.toNat = v :=
  have hsize : v < 4294967296 := by omega
  ⟨⟨UInt32.ofNatLT v hsize, by simpa [UInt32.isValidChar, Nat.isValidChar] using h⟩, by simp⟩

theorem ofNat_eq {n : ℕ} {b : UInt8} (h : n = b.toNat) : UInt8.ofNat n = b := by
  rw [h, UInt8.ofNat_toNat]

theorem encode_two {b₀ b₁ : UInt8} (h₀ : 0xC2 ≤ b₀.toNat ∧ b₀.toNat ≤ 0xDF)
    (h₁ : 0x80 ≤ b₁.toNat ∧ b₁.toNat ≤ 0xBF) :
    ∃ c : Char, [b₀, b₁] = String.utf8EncodeChar c := by
  obtain ⟨c, hc⟩ := exists_toNat (v := (b₀.toNat - 0xC0) * 64 + (b₁.toNat - 0x80)) (by omega)
  refine ⟨c, ?_⟩
  unfold String.utf8EncodeChar
  rw [hc]
  dsimp only
  rw [if_neg (by omega), if_pos (by omega), ofNat_eq (b := b₀) (by omega),
    ofNat_eq (b := b₁) (by omega)]

theorem encode_three {b₀ b₁ b₂ : UInt8} (h₀ : 0xE0 ≤ b₀.toNat ∧ b₀.toNat ≤ 0xEF)
    (h₁ : 0x80 ≤ b₁.toNat ∧ b₁.toNat ≤ 0xBF) (h₂ : 0x80 ≤ b₂.toNat ∧ b₂.toNat ≤ 0xBF)
    (hlow : b₀.toNat = 0xE0 → 0xA0 ≤ b₁.toNat) (hhigh : b₀.toNat = 0xED → b₁.toNat ≤ 0x9F) :
    ∃ c : Char, [b₀, b₁, b₂] = String.utf8EncodeChar c := by
  obtain ⟨c, hc⟩ := exists_toNat
    (v := (b₀.toNat - 0xE0) * 4096 + (b₁.toNat - 0x80) * 64 + (b₂.toNat - 0x80)) (by omega)
  refine ⟨c, ?_⟩
  unfold String.utf8EncodeChar
  rw [hc]
  dsimp only
  rw [if_neg (by omega), if_neg (by omega), if_pos (by omega), ofNat_eq (b := b₀) (by omega),
    ofNat_eq (b := b₁) (by omega), ofNat_eq (b := b₂) (by omega)]

theorem encode_four {b₀ b₁ b₂ b₃ : UInt8} (h₀ : 0xF0 ≤ b₀.toNat ∧ b₀.toNat ≤ 0xF4)
    (h₁ : 0x80 ≤ b₁.toNat ∧ b₁.toNat ≤ 0xBF) (h₂ : 0x80 ≤ b₂.toNat ∧ b₂.toNat ≤ 0xBF)
    (h₃ : 0x80 ≤ b₃.toNat ∧ b₃.toNat ≤ 0xBF)
    (hlow : b₀.toNat = 0xF0 → 0x90 ≤ b₁.toNat) (hhigh : b₀.toNat = 0xF4 → b₁.toNat ≤ 0x8F) :
    ∃ c : Char, [b₀, b₁, b₂, b₃] = String.utf8EncodeChar c := by
  obtain ⟨c, hc⟩ := exists_toNat
    (v := (b₀.toNat - 0xF0) * 262144 + (b₁.toNat - 0x80) * 4096 + (b₂.toNat - 0x80) * 64
      + (b₃.toNat - 0x80)) (by omega)
  refine ⟨c, ?_⟩
  unfold String.utf8EncodeChar
  rw [hc]
  dsimp only
  rw [if_neg (by omega), if_neg (by omega), if_neg (by omega), ofNat_eq (b := b₀) (by omega),
    ofNat_eq (b := b₁) (by omega), ofNat_eq (b := b₂) (by omega), ofNat_eq (b := b₃) (by omega)]

theorem matchTails_eq_char_nil {seen n : ℕ} (h : matchTails seen [] bs = .char n) : n = seen := by
  cases h
  rfl

/-- **What is taken for a character is the encoding of one.** -/
theorem exists_char {n : ℕ} (h : head bs = .char n) :
    ∃ c : Char, bs.take n = String.utf8EncodeChar c := by
  cases bs with
  | nil => cases h
  | cons b bs =>
    rcases row_cases b with hone | htwo | hthree | hfour | hnone
    · rw [head_of_tails _ (tails_one hone)] at h
      obtain rfl := matchTails_eq_char_nil h
      obtain ⟨c, hc⟩ := exists_toNat (v := b.toNat) (by omega)
      refine ⟨c, ?_⟩
      unfold String.utf8EncodeChar
      rw [hc]
      dsimp only
      rw [if_pos (by omega), ofNat_eq (b := b) rfl]
      rfl
    · rw [head_of_tails _ (tails_two htwo)] at h
      obtain ⟨b₁, bs, rfl, h₁, h⟩ := matchTails_eq_char h
      obtain rfl := matchTails_eq_char_nil h
      exact encode_two htwo h₁
    · obtain ⟨range, htails, hrange⟩ := tails_three hthree
      rw [head_of_tails _ htails] at h
      obtain ⟨b₁, bs, rfl, h₁, h⟩ := matchTails_eq_char h
      obtain ⟨b₂, bs, rfl, h₂, h⟩ := matchTails_eq_char h
      obtain rfl := matchTails_eq_char_nil h
      obtain ⟨hlow, hhigh, he0, hed⟩ := (hrange _).mp h₁
      exact encode_three hthree ⟨hlow, hhigh⟩ h₂ he0 hed
    · obtain ⟨range, htails, hrange⟩ := tails_four hfour
      rw [head_of_tails _ htails] at h
      obtain ⟨b₁, bs, rfl, h₁, h⟩ := matchTails_eq_char h
      obtain ⟨b₂, bs, rfl, h₂, h⟩ := matchTails_eq_char h
      obtain ⟨b₃, bs, rfl, h₃, h⟩ := matchTails_eq_char h
      obtain rfl := matchTails_eq_char_nil h
      obtain ⟨hlow, hhigh, hf0, hf4⟩ := (hrange _).mp h₁
      exact encode_four hfour ⟨hlow, hhigh⟩ h₂ h₃ hf0 hf4
    · rw [head_of_tails_none _ (tails_none hnone)] at h
      cases h

/-! ### Checking -/

/-- Where `from_utf8` stops: the length of the valid text, and that of the invalid sequence after
it, unless the bytes end inside a character. -/
structure Utf8Error where
  validUpTo : ℕ
  errorLen : Option ℕ
  deriving DecidableEq

/-- The loop of `run_utf8_validation`, from an index on. -/
def runUtf8Validation : ℕ → ℕ → List UInt8 → Option Utf8Error
  | 0, _, _ => none
  | fuel + 1, index, bs =>
    if bs = [] then none
    else
      match head bs with
      | .char n => runUtf8Validation fuel (index + n) (bs.drop n)
      | .invalid n => some ⟨index, some n⟩
      | .incomplete => some ⟨index, none⟩

/-- The first error of the bytes. -/
def firstError (bs : List UInt8) : Option Utf8Error :=
  runUtf8Validation bs.length 0 bs

/-- The bytes are a text. -/
def Wellformed (bs : List UInt8) : Prop :=
  firstError bs = none

instance (bs : List UInt8) : Decidable (Wellformed bs) :=
  inferInstanceAs (Decidable (firstError bs = none))

theorem length_drop_char {n : ℕ} (h : head bs = .char n) :
    (bs.drop n).length < bs.length := by
  have := head_bounds (.inl h)
  rw [List.length_drop]
  omega

theorem ne_nil_of_char {n : ℕ} (h : head bs = .char n) : bs ≠ [] := by
  rintro rfl
  cases h

theorem ne_nil_of_invalid {n : ℕ} (h : head bs = .invalid n) : bs ≠ [] := by
  rintro rfl
  cases h

/-- **Induction along the characters at the front of the bytes.** -/
theorem chars_induction {motive : List UInt8 → Prop} (nil : motive [])
    (char : ∀ bs n, head bs = .char n → motive (bs.drop n) → motive bs)
    (invalid : ∀ bs n, head bs = .invalid n → motive bs)
    (incomplete : ∀ bs, bs ≠ [] → head bs = .incomplete → motive bs) (bs : List UInt8) :
    motive bs := by
  induction hlen : bs.length using Nat.strongRecOn generalizing bs with
  | _ len ih =>
    by_cases hnil : bs = []
    · exact hnil ▸ nil
    cases hhead : head bs with
    | char n =>
      have hshort := length_drop_char hhead
      exact char bs n hhead (ih _ (hlen ▸ hshort) _ rfl)
    | invalid n => exact invalid bs n hhead
    | incomplete => exact incomplete bs hnil hhead

section Loop

variable {fuel n : ℕ} {bs : List UInt8} (index : ℕ)

theorem runUtf8Validation_char (hfuel : bs.length ≤ fuel) (h : head bs = .char n) :
    runUtf8Validation fuel index bs = runUtf8Validation (fuel - 1) (index + n) (bs.drop n) := by
  have hpos := List.length_pos_iff.mpr (ne_nil_of_char h)
  obtain ⟨fuel, rfl⟩ : ∃ k, fuel = k + 1 := ⟨fuel - 1, by omega⟩
  rw [runUtf8Validation, if_neg (ne_nil_of_char h), h]
  rfl

theorem runUtf8Validation_invalid (hfuel : bs.length ≤ fuel) (h : head bs = .invalid n) :
    runUtf8Validation fuel index bs = some ⟨index, some n⟩ := by
  have hpos := List.length_pos_iff.mpr (ne_nil_of_invalid h)
  obtain ⟨fuel, rfl⟩ : ∃ k, fuel = k + 1 := ⟨fuel - 1, by omega⟩
  rw [runUtf8Validation, if_neg (ne_nil_of_invalid h), h]

theorem runUtf8Validation_incomplete (hfuel : bs.length ≤ fuel) (hnil : bs ≠ [])
    (h : head bs = .incomplete) : runUtf8Validation fuel index bs = some ⟨index, none⟩ := by
  have hpos := List.length_pos_iff.mpr hnil
  obtain ⟨fuel, rfl⟩ : ∃ k, fuel = k + 1 := ⟨fuel - 1, by omega⟩
  rw [runUtf8Validation, if_neg hnil, h]

/-- The loop takes at least a byte each time, and goes by the bytes from the index on. -/
theorem runUtf8Validation_eq (hfuel : bs.length ≤ fuel) :
    runUtf8Validation fuel index bs
      = (firstError bs).map fun e => ⟨index + e.validUpTo, e.errorLen⟩ := by
  induction bs using chars_induction generalizing fuel index with
  | nil => cases fuel <;> rfl
  | char bs n hhead ih =>
    have hshort := length_drop_char hhead
    rw [firstError, runUtf8Validation_char index hfuel hhead,
      runUtf8Validation_char 0 (Nat.le_refl _) hhead, ih _ (by omega), ih _ (by omega),
      Option.map_map]
    refine congrArg (Option.map · _) (funext fun e => ?_)
    simp only [Function.comp, Nat.zero_add, Nat.add_assoc]
  | invalid bs n hhead =>
    rw [firstError, runUtf8Validation_invalid index hfuel hhead,
      runUtf8Validation_invalid 0 (Nat.le_refl _) hhead]
    rfl
  | incomplete bs hnil hhead =>
    rw [firstError, runUtf8Validation_incomplete index hfuel hnil hhead,
      runUtf8Validation_incomplete 0 (Nat.le_refl _) hnil hhead]
    rfl

end Loop

theorem firstError_char {n : ℕ} (h : head bs = .char n) :
    firstError bs = (firstError (bs.drop n)).map fun e => ⟨n + e.validUpTo, e.errorLen⟩ := by
  have hshort := length_drop_char h
  rw [firstError, runUtf8Validation_char 0 (Nat.le_refl _) h, runUtf8Validation_eq _ (by omega),
    Nat.zero_add]

theorem firstError_invalid {n : ℕ} (h : head bs = .invalid n) :
    firstError bs = some ⟨0, some n⟩ :=
  runUtf8Validation_invalid 0 (Nat.le_refl _) h

theorem firstError_incomplete (hnil : bs ≠ []) (h : head bs = .incomplete) :
    firstError bs = some ⟨0, none⟩ :=
  runUtf8Validation_incomplete 0 (Nat.le_refl _) hnil h

theorem wellformed_char {n : ℕ} (h : head bs = .char n) :
    Wellformed bs ↔ Wellformed (bs.drop n) := by
  rw [Wellformed, firstError_char h, Option.map_eq_none_iff, Wellformed]

theorem Wellformed.encode_append (c : Char) (h : Wellformed bs) :
    Wellformed (String.utf8EncodeChar c ++ bs) := by
  rw [wellformed_char (head_encode c bs), List.drop_left]
  exact h

/-- **What is accepted are the encodings of lists of characters.** -/
theorem wellformed_iff :
    Wellformed bs ↔ ∃ cs : List Char, bs = cs.flatMap String.utf8EncodeChar := by
  constructor
  · intro h
    induction bs using chars_induction with
    | nil => exact ⟨[], rfl⟩
    | char bs n hhead ih =>
      obtain ⟨cs, hcs⟩ := ih ((wellformed_char hhead).mp h)
      obtain ⟨c, hc⟩ := exists_char hhead
      refine ⟨c :: cs, ?_⟩
      rw [List.flatMap_cons, ← hc, ← hcs, List.take_append_drop]
    | invalid bs n hhead =>
      rw [Wellformed, firstError_invalid hhead] at h
      cases h
    | incomplete bs hnil hhead =>
      rw [Wellformed, firstError_incomplete hnil hhead] at h
      cases h
  · rintro ⟨cs, rfl⟩
    induction cs with
    | nil => rfl
    | cons c cs ih =>
      rw [List.flatMap_cons]
      exact ih.encode_append c

theorem Wellformed.append {first second : List UInt8} (hfirst : Wellformed first)
    (hsecond : Wellformed second) : Wellformed (first ++ second) := by
  obtain ⟨cs, rfl⟩ := wellformed_iff.mp hfirst
  obtain ⟨cs', rfl⟩ := wellformed_iff.mp hsecond
  exact wellformed_iff.mpr ⟨cs ++ cs', (List.flatMap_append).symm⟩


end Utf8
