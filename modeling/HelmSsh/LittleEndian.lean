/-
# Little-endian numbers of a fixed width

The bytes of a number, least significant first (`to_le_bytes`), and the number of a list
of bytes (`from_le_bytes`).  A number that fits its width is read back (`value_bytes`), and
so is any other up to the width (`value_bytes_mod`); and bytes are written back as they were read
(`bytes_value`).
-/

import Mathlib.Algebra.GroupWithZero.Nat
import Mathlib.Data.Nat.Notation
import Mathlib.Tactic.Common

namespace LittleEndian

/-- The bytes of a number. -/
def bytes : ℕ → ℕ → List UInt8
  | 0, _ => []
  | width + 1, n => UInt8.ofNat n :: bytes width (n / 256)

/-- The number of the bytes. -/
def value : List UInt8 → ℕ
  | [] => 0
  | b :: bs => b.toNat + 256 * value bs

@[simp] theorem length_bytes (width n : ℕ) : (bytes width n).length = width := by
  induction width generalizing n with
  | zero => rfl
  | succ width ih => rw [bytes, List.length_cons, ih]

theorem value_bytes_mod (width n : ℕ) : value (bytes width n) = n % 256 ^ width := by
  induction width generalizing n with
  | zero => rw [bytes, value, Nat.pow_zero, Nat.mod_one]
  | succ width ih =>
    have hbyte : (UInt8.ofNat n).toNat = n % 256 := UInt8.toNat_ofNat'
    rw [bytes, value, ih, hbyte, Nat.pow_succ', Nat.mod_mul]

/-- **A number that fits is read back.** -/
theorem value_bytes {width n : ℕ} (h : n < 256 ^ width) : value (bytes width n) = n := by
  rw [value_bytes_mod, Nat.mod_eq_of_lt h]

/-- **Bytes that were read are written back.** -/
theorem bytes_value (bs : List UInt8) : bytes bs.length (value bs) = bs := by
  induction bs with
  | nil => rfl
  | cons b bs ih =>
    have hlt : b.toNat < 256 := b.toNat_lt
    have hdiv : (b.toNat + 256 * value bs) / 256 = value bs := by omega
    have hmod : UInt8.ofNat (b.toNat + 256 * value bs) = b := by
      refine UInt8.toNat_inj.mp ?_
      rw [UInt8.toNat_ofNat']
      omega
    rw [List.length_cons, value, bytes, hdiv, ih, hmod]

theorem value_lt (bs : List UInt8) : value bs < 256 ^ bs.length := by
  induction bs with
  | nil => exact Nat.one_pos
  | cons b bs ih =>
    have hlt : b.toNat < 256 := b.toNat_lt
    rw [value, List.length_cons, Nat.pow_succ']
    omega

theorem eq_of_value {bs cs : List UInt8} (hlength : bs.length = cs.length)
    (hvalue : value bs = value cs) : bs = cs := by
  rw [← bytes_value bs, ← bytes_value cs, hlength, hvalue]

example : bytes 4 65536 = [0, 0, 1, 0] := by decide

end LittleEndian
