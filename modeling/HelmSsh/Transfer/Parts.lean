/-
# The parts of a transfer

How `src-tauri/src/remote/` splits a file for a transfer on several handles:
`transfer_worker_parts` says into how many parts, `parallel_part_range` which bytes a part
has, and `contiguous_parallel_prefix` how much of the file the parts have counted without
a gap.

* `chained_parallelParts` — the parts follow one another over the whole file.
* `covered_of_lt_prefix` — a position below the contiguous prefix was counted by a part.
* `not_counted_prefix` — no part has counted the position behind it.
-/

import Mathlib.Data.Nat.Notation
import Mathlib.Order.Nat
import Mathlib.Tactic.Common

namespace HelmSsh
namespace Transfer

/-- `TransferDirection`. -/
inductive Direction where
  | upload
  | download
  deriving DecidableEq

/-- `MAX_SFTP_TRANSFER_CONCURRENCY`. -/
def maxSftpTransferConcurrency : ℕ := 4

/-- `PARALLEL_UPLOAD_THRESHOLD`. -/
def parallelUploadThreshold : ℕ := 16 * 1024 * 1024

/-- `PARALLEL_UPLOAD_PARTS`. -/
def parallelUploadParts : ℕ := 4

/-- `PARALLEL_DOWNLOAD_THRESHOLD`. -/
def parallelDownloadThreshold : ℕ := 16 * 1024 * 1024

/-- `PARALLEL_DOWNLOAD_PARTS`. -/
def parallelDownloadParts : ℕ := 4

/-- The number of parts that a direction is configured for. -/
def configuredParts (bytesTotal : ℕ) : Direction → ℕ
  | .upload => if parallelUploadThreshold ≤ bytesTotal then parallelUploadParts else 1
  | .download => if parallelDownloadThreshold ≤ bytesTotal then parallelDownloadParts else 1

/-- `transfer_worker_parts`. -/
def transferWorkerParts (direction : Direction) (resume : Bool) (bytesTotal : ℕ) : ℕ :=
  if resume = true ∨ bytesTotal = 0 then 1
  else max (min (min (configuredParts bytesTotal direction) maxSftpTransferConcurrency)
    (max bytesTotal 1)) 1

/-- `parallel_part_range`: the start and the length of a part. -/
def parallelPartRange (totalSize parts index : ℕ) : ℕ × ℕ :=
  let chunkSize := totalSize / parts
  let start := index * chunkSize
  (start, if index = parts - 1 then totalSize - start else chunkSize)

/-- A part of a copy: its range, how many of its bytes have been handed to a write, and how
many of them are counted. -/
structure Part where
  start : ℕ
  len : ℕ
  position : ℕ
  counted : ℕ
  deriving DecidableEq

/-- A part from which nothing has been copied. -/
def Part.new (range : ℕ × ℕ) : Part :=
  { start := range.1, len := range.2, position := 0, counted := 0 }

/-- The parts of a parallel transfer. -/
def parallelParts (totalSize parts : ℕ) : List Part :=
  (List.range parts).map fun index => .new (parallelPartRange totalSize parts index)

/-- `contiguous_parallel_prefix`. -/
def contiguousParallelPrefix : List Part → ℕ
  | [] => 0
  | part :: parts =>
    let completed := min part.counted part.len
    if completed < part.len then completed else completed + contiguousParallelPrefix parts

/-- The parts follow one another from one position to another. -/
def Chained (start stop : ℕ) : List Part → Prop
  | [] => start = stop
  | part :: parts => part.start = start ∧ Chained (start + part.len) stop parts

/-- The parts from `index` on follow one another to the end. -/
theorem chained_range' {totalSize parts : ℕ} (m index : ℕ) (hparts : index + m = parts)
    (hm : 0 < m) :
    Chained (index * (totalSize / parts)) totalSize
      ((List.range' index m).map fun index => .new (parallelPartRange totalSize parts index)) := by
  induction m generalizing index with
  | zero => omega
  | succ m ih =>
    rw [List.range'_succ, List.map_cons, Chained]
    refine ⟨rfl, ?_⟩
    by_cases hlast : m = 0
    · have hindex : index = parts - 1 := by omega
      have hle : index * (totalSize / parts) ≤ totalSize :=
        (Nat.mul_le_mul_right _ (by omega)).trans (Nat.mul_div_le totalSize parts)
      show Chained (index * (totalSize / parts) +
        (if index = parts - 1 then totalSize - index * (totalSize / parts)
          else totalSize / parts)) _ _
      rw [if_pos hindex, hlast, List.range'_zero, List.map_nil, Chained]
      omega
    · have hindex : index ≠ parts - 1 := by omega
      have hnext := ih (index + 1) (by omega) (by omega)
      rw [Nat.add_mul, Nat.one_mul] at hnext
      show Chained (index * (totalSize / parts) +
        (if index = parts - 1 then totalSize - index * (totalSize / parts)
          else totalSize / parts)) _ _
      rw [if_neg hindex]
      exact hnext

/-- **The parts follow one another over the whole file.** -/
theorem chained_parallelParts {totalSize parts : ℕ} (h : 0 < parts) :
    Chained 0 totalSize (parallelParts totalSize parts) := by
  have hchain : Chained (0 * (totalSize / parts)) totalSize
      ((List.range' 0 parts).map fun index => .new (parallelPartRange totalSize parts index)) :=
    chained_range' parts 0 (Nat.zero_add parts) h
  rw [Nat.zero_mul] at hchain
  rw [parallelParts, List.range_eq_range']
  exact hchain

variable {parts : List Part} {start stop : ℕ}

theorem Chained.le (h : Chained start stop parts) :
    start ≤ stop := by
  induction parts generalizing start with
  | nil => exact Nat.le_of_eq h
  | cons part parts ih =>
    have := ih h.2
    omega

theorem prefix_le (h : Chained start stop parts) :
    start + contiguousParallelPrefix parts ≤ stop := by
  induction parts generalizing start with
  | nil => exact h.le
  | cons part parts ih =>
    have hrest := ih h.2
    rw [contiguousParallelPrefix]
    split_ifs
    · have := h.2.le
      omega
    · omega

/-- **A position below the contiguous prefix was counted by a part.** -/
theorem covered_of_lt_prefix {i : ℕ} (h : Chained start stop parts)
    (hlo : start ≤ i) (hhi : i < start + contiguousParallelPrefix parts) :
    ∃ part ∈ parts, part.start ≤ i ∧ i < part.start + min part.counted part.len := by
  induction parts generalizing start with
  | nil =>
    rw [contiguousParallelPrefix] at hhi
    omega
  | cons part parts ih =>
    obtain ⟨hstart, hrest⟩ := h
    by_cases hpart : i < part.start + min part.counted part.len
    · exact ⟨part, List.mem_cons_self, by omega, hpart⟩
    · rw [contiguousParallelPrefix] at hhi
      split_ifs at hhi with hshort
      · omega
      · obtain ⟨other, hmem, hcovered⟩ := ih hrest (by omega) (by omega)
        exact ⟨other, List.mem_cons_of_mem _ hmem, hcovered⟩

theorem exists_part {i : ℕ} (h : Chained start stop parts) (hlo : start ≤ i) (hhi : i < stop) :
    ∃ part ∈ parts, part.start ≤ i ∧ i < part.start + part.len := by
  induction parts generalizing start with
  | nil =>
    rw [Chained] at h
    omega
  | cons part parts ih =>
    obtain ⟨hstart, hrest⟩ := h
    by_cases hpart : i < part.start + part.len
    · exact ⟨part, List.mem_cons_self, by omega, hpart⟩
    · obtain ⟨other, hmem, hin⟩ := ih hrest (by omega)
      exact ⟨other, List.mem_cons_of_mem _ hmem, hin⟩

theorem Chained.part_le (h : Chained start stop parts)
    {part : Part} (hpart : part ∈ parts) : part.start + part.len ≤ stop := by
  induction parts generalizing start with
  | nil => cases hpart
  | cons first parts ih =>
    obtain ⟨hstart, hrest⟩ := h
    rcases List.mem_cons.mp hpart with rfl | hmem
    · have := hrest.le
      omega
    · exact ih hrest hmem

/-- A part of a chain does not begin before the chain. -/
theorem Chained.le_part (h : Chained start stop parts)
    {part : Part} (hpart : part ∈ parts) : start ≤ part.start := by
  induction parts generalizing start with
  | nil => cases hpart
  | cons first parts ih =>
    obtain ⟨hstart, hrest⟩ := h
    rcases List.mem_cons.mp hpart with rfl | hmem
    · exact Nat.le_of_eq hstart.symm
    · have := ih hrest hmem
      omega

/-- **The contiguous prefix is the longest one**: no part has counted the position behind it. -/
theorem not_counted_prefix (h : Chained start stop parts)
    (hcounted : ∀ part ∈ parts, part.counted ≤ part.len) :
    ∀ part ∈ parts, part.start ≤ start + contiguousParallelPrefix parts →
      part.start + part.counted ≤ start + contiguousParallelPrefix parts := by
  induction parts generalizing start with
  | nil =>
    intro part hpart
    cases hpart
  | cons first parts ih =>
    obtain ⟨hstart, hrest⟩ := h
    have hfirst := hcounted first List.mem_cons_self
    have hrestCounted := fun part hpart => hcounted part (List.mem_cons_of_mem first hpart)
    intro part hpart hle
    rw [contiguousParallelPrefix] at hle ⊢
    by_cases hshort : min first.counted first.len < first.len
    · rw [if_pos hshort] at hle ⊢
      rcases List.mem_cons.mp hpart with rfl | hmem
      · omega
      · have := hrest.le_part hmem
        omega
    · rw [if_neg hshort] at hle ⊢
      rcases List.mem_cons.mp hpart with rfl | hmem
      · omega
      · have := ih hrest hrestCounted part hmem (by omega)
        omega

/-- A part put in the place of another one with the same range keeps the chain. -/
theorem Chained.set (h : Chained start stop parts)
    {index : ℕ} {part part' : Part} (hpart : parts[index]? = some part)
    (hstart : part'.start = part.start) (hlen : part'.len = part.len) :
    Chained start stop (parts.set index part') := by
  induction parts generalizing start index with
  | nil => exact h
  | cons first parts ih =>
    obtain ⟨hfirst, hrest⟩ := h
    cases index with
    | zero =>
      obtain rfl := Option.some.inj hpart
      rw [List.set_cons_zero, Chained, hstart, hlen]
      exact ⟨hfirst, hrest⟩
    | succ index =>
      rw [List.set_cons_succ]
      exact ⟨hfirst, ih hrest hpart⟩

/-- A change of a part that keeps its range keeps the chain. -/
theorem Chained.modify (h : Chained start stop parts)
    {f : Part → Part} (hf : ∀ p, (f p).start = p.start ∧ (f p).len = p.len) (index : ℕ) :
    Chained start stop (parts.modify index f) := by
  induction parts generalizing start index with
  | nil =>
    rw [List.modify_nil]
    exact h
  | cons part parts ih =>
    obtain ⟨hstart, hrest⟩ := h
    cases index with
    | zero =>
      rw [List.modify_zero_cons, Chained, (hf part).1, (hf part).2]
      exact ⟨hstart, hrest⟩
    | succ index =>
      rw [List.modify_succ_cons]
      exact ⟨hstart, ih hrest index⟩

/-- The parts after a change of one are the others and the changed one. -/
theorem mem_modify {f : Part → Part} {index : ℕ} {part : Part} (h : part ∈ parts.modify index f) :
    part ∈ parts ∨ ∃ before, parts[index]? = some before ∧ f before = part := by
  obtain ⟨i, hi⟩ := List.mem_iff_getElem?.mp h
  rw [List.getElem?_modify] at hi
  obtain ⟨before, hbefore, hpart⟩ := Option.map_eq_some_iff.mp hi
  split_ifs at hpart with hindex
  · rw [← hindex] at hbefore
    exact .inr ⟨before, hbefore, hpart⟩
  · rw [← hpart]
    exact .inl (List.mem_of_getElem? hbefore)

example : contiguousParallelPrefix
    [⟨0, 4, 4, 4⟩, ⟨4, 4, 2, 2⟩, ⟨8, 4, 4, 4⟩, ⟨12, 4, 4, 4⟩] = 6 := by
  decide

end Transfer
end HelmSsh
