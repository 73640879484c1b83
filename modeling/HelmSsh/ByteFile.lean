/-
# Files as lists, written at positions

A file is the list of its bytes, here of any type with a `zero` for the holes.  A write at
a position changes what it covers and fills a hole in front of it; setting the length cuts
the file or fills it up.

A copy of a `source` is judged position by position: `Copied source file i` says that the
file has the right byte at `i`.  A write of a piece of the source (`Piece`) copies what it
covers and keeps what was copied (`copied_writeAt`), and it keeps a prefix of the source
one when it leaves no hole (`writeAt_prefix`).
-/

import Mathlib.Data.Nat.Notation
import Mathlib.Data.List.Basic

namespace ByteFile

variable {α : Type*}

/-- The file after a write at `offset`. -/
def writeAt (zero : α) (file : List α) (offset : ℕ) (data : List α) : List α :=
  file.take offset ++ (List.replicate (offset - file.length) zero ++
    (data ++ file.drop (offset + data.length)))

/-- The file cut or filled up to a length. -/
def setLen (zero : α) (file : List α) (length : ℕ) : List α :=
  file.take length ++ List.replicate (length - file.length) zero

variable {zero : α} {source file data : List α} {offset i : ℕ}

theorem length_writeAt :
    (writeAt zero file offset data).length = max file.length (offset + data.length) := by
  simp only [writeAt, List.length_append, List.length_take, List.length_replicate, List.length_drop]
  omega

theorem getElem?_writeAt_inside (hlo : offset ≤ i) (hhi : i < offset + data.length) :
    (writeAt zero file offset data)[i]? = data[i - offset]? := by
  have hfront : (file.take offset).length + (offset - file.length) = offset := by
    rw [List.length_take]
    omega
  rw [writeAt, List.getElem?_append_right (by omega), List.getElem?_append_right]
  · rw [List.length_replicate, List.getElem?_append_left (by omega)]
    congr 1
    omega
  · rw [List.length_replicate]
    omega

theorem getElem?_writeAt_outside (hi : i < file.length)
    (hout : i < offset ∨ offset + data.length ≤ i) :
    (writeAt zero file offset data)[i]? = file[i]? := by
  rcases hout with hlt | hge
  · rw [writeAt, List.getElem?_append_left, List.getElem?_take_of_lt hlt]
    rw [List.length_take]
    omega
  · have hfront : (file.take offset).length = offset := by
      rw [List.length_take]
      omega
    have hfill : offset - file.length = 0 := by omega
    rw [writeAt, hfill, List.replicate_zero, List.nil_append,
      List.getElem?_append_right (by omega), hfront, List.getElem?_append_right (by omega),
      List.getElem?_drop]
    congr 1
    omega

theorem length_setLen (n : ℕ) : (setLen zero file n).length = n := by
  rw [setLen, List.length_append, List.length_take, List.length_replicate]
  omega

theorem getElem?_setLen {n : ℕ} (hn : i < n) (hi : i < file.length) :
    (setLen zero file n)[i]? = file[i]? := by
  rw [setLen, List.getElem?_append_left, List.getElem?_take_of_lt hn]
  rw [List.length_take]
  omega

/-! ### Copies of a source -/

/-- The file has the byte of the source at a position. -/
def Copied (source file : List α) (i : ℕ) : Prop :=
  i < file.length ∧ file[i]? = source[i]?

/-- The data are those of the source from a position on. -/
structure Piece (source : List α) (offset : ℕ) (data : List α) : Prop where
  fits : offset + data.length ≤ source.length
  same : ∀ i, i < data.length → data[i]? = source[offset + i]?

theorem piece_take_drop {n : ℕ} (h : offset + n ≤ source.length) :
    Piece source offset ((source.drop offset).take n) where
  fits := by
    rw [List.length_take, List.length_drop]
    omega
  same := by
    intro i hi
    rw [List.length_take, List.length_drop] at hi
    rw [List.getElem?_take_of_lt (by omega), List.getElem?_drop]

theorem Piece.take (h : Piece source offset data) (n : ℕ) :
    Piece source offset (data.take n) where
  fits := by
    have := h.fits
    rw [List.length_take]
    omega
  same := by
    intro i hi
    rw [List.length_take] at hi
    rw [List.getElem?_take_of_lt (by omega)]
    exact h.same i (by omega)

theorem Piece.drop (h : Piece source offset data) {n : ℕ} (hn : n ≤ data.length) :
    Piece source (offset + n) (data.drop n) where
  fits := by
    have := h.fits
    rw [List.length_drop]
    omega
  same := by
    intro i hi
    rw [List.length_drop] at hi
    rw [List.getElem?_drop, h.same (n + i) (by omega), Nat.add_assoc]

/-- **A write of a piece copies what it covers**, and keeps what was copied. -/
theorem copied_writeAt (hpiece : Piece source offset data)
    (h : (offset ≤ i ∧ i < offset + data.length) ∨ Copied source file i) :
    Copied source (writeAt zero file offset data) i := by
  have hlen : (writeAt zero file offset data).length = max file.length (offset + data.length) :=
    length_writeAt
  by_cases hin : offset ≤ i ∧ i < offset + data.length
  · refine ⟨by omega, ?_⟩
    rw [getElem?_writeAt_inside hin.1 hin.2, hpiece.same (i - offset) (by omega)]
    congr 1
    omega
  · obtain ⟨hi, hsame⟩ := h.resolve_left hin
    refine ⟨by omega, ?_⟩
    rw [getElem?_writeAt_outside hi (by omega)]
    exact hsame

/-- A file that is copied at each of its positions is a prefix of the source. -/
theorem prefix_of_copied (hlen : file.length ≤ source.length)
    (h : ∀ i, i < file.length → Copied source file i) : file <+: source := by
  rw [List.prefix_iff_eq_take]
  refine List.ext_getElem? fun i => ?_
  by_cases hi : i < file.length
  · rw [List.getElem?_take_of_lt hi]
    exact (h i hi).2
  · rw [List.getElem?_eq_none (by omega), List.getElem?_eq_none]
    rw [List.length_take]
    omega

theorem prefix_copied (h : file <+: source) (hi : i < file.length) : Copied source file i := by
  refine ⟨hi, ?_⟩
  rw [List.prefix_iff_eq_take.mp h, List.getElem?_take_of_lt hi]

/-- A file that is copied at every position of the source is the source. -/
theorem eq_of_copied (hlen : file.length ≤ source.length)
    (h : ∀ i, i < source.length → Copied source file i) : file = source := by
  have hfront := prefix_of_copied hlen fun i hi => h i (by omega)
  refine hfront.eq_of_length_le ?_
  by_contra hshort
  have := (h file.length (by omega)).1
  omega

/-- **A piece that leaves no hole keeps the file a prefix of the source.** -/
theorem writeAt_prefix (hpiece : Piece source offset data) (h : file <+: source)
    (hhole : offset ≤ file.length) : writeAt zero file offset data <+: source := by
  have hlen : (writeAt zero file offset data).length = max file.length (offset + data.length) :=
    length_writeAt
  refine prefix_of_copied ?_ fun i hi => copied_writeAt hpiece ?_
  · have := h.length_le
    have := hpiece.fits
    omega
  · by_cases hin : i < file.length
    · exact .inr (prefix_copied h hin)
    · exact .inl ⟨by omega, by omega⟩

/-- A file cut to positions that are all copied is a prefix of the source. -/
theorem setLen_prefix {n : ℕ} (hn : n ≤ source.length)
    (h : ∀ i, i < n → Copied source file i) : setLen zero file n <+: source := by
  have hlen : (setLen zero file n).length = n := length_setLen n
  refine prefix_of_copied (by omega) fun i hi => ⟨hi, ?_⟩
  rw [hlen] at hi
  rw [getElem?_setLen hi (h i hi).1]
  exact (h i hi).2

end ByteFile
