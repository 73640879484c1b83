/-
# The scans for bare carriage returns, instruction by instruction

`scan_avx2`, `scan_sse2`, `scan_neon`, `select_scan` and `has_bare_cr` of
`src-tauri/src/remote/terminal_bytes.rs`, with the vector instructions that they use: a block of
bytes and the block one byte further on are loaded, each lane is compared, and the comparisons are
brought together, as a mask of bits on x86 and as a maximum on ARM.

* `maskHit_iff`, `maxHit_iff` — both find a lane with a carriage return and no line feed in the same
  lane of the shifted block.
* `scanLoop_iff` — the loop over the blocks and the portable scan of what is left; the loads stay in
  bounds (`loadu` asks for that).
* `hasBareCr_agree` — every path, and the dispatch on every processor, answers as the portable scan
  does.
-/

import Mathlib.Data.List.OfFn
import Mathlib.Data.List.TakeDrop
import Mathlib.Tactic.Common

namespace HelmSsh
namespace Terminal

/-- `b'\r'`. -/
def cr : UInt8 := 13

/-- `b'\n'`. -/
def lf : UInt8 := 10

/-- Some carriage return of the bytes is not followed by a line feed. -/
def HasBareCr (bytes : List UInt8) : Prop :=
  ∃ i : ℕ, bytes[i]? = some cr ∧ bytes[i + 1]? ≠ some lf

/-- `portable_scan`: each carriage return is looked at with the byte after it. -/
def portableScan : List UInt8 → Bool
  | [] => false
  | b :: rest => (b == cr && rest.head? != some lf) || portableScan rest

theorem portableScan_iff (bytes : List UInt8) : portableScan bytes = true ↔ HasBareCr bytes := by
  induction bytes with
  | nil => simp [portableScan, HasBareCr]
  | cons b rest ih =>
    rw [portableScan, Bool.or_eq_true, ih]
    constructor
    · rintro (h | ⟨i, hi, hnext⟩)
      · rw [Bool.and_eq_true, beq_iff_eq, bne_iff_ne] at h
        refine ⟨0, by rw [h.1]; rfl, ?_⟩
        rw [Nat.zero_add, List.getElem?_cons_succ, ← List.head?_eq_getElem?]
        exact h.2
      · exact ⟨i + 1, hi, hnext⟩
    · rintro ⟨i, hi, hnext⟩
      cases i with
      | zero =>
        rw [Nat.zero_add, List.getElem?_cons_succ, ← List.head?_eq_getElem?] at hnext
        rw [List.getElem?_cons_zero, Option.some.injEq] at hi
        exact .inl (by rw [Bool.and_eq_true, beq_iff_eq, bne_iff_ne]; exact ⟨hi, hnext⟩)
      | succ i => exact .inr ⟨i, hi, hnext⟩

/-- The bare carriage returns of a list are those of its first bytes and those of the
rest. -/
theorem hasBareCr_drop (width : ℕ) (bytes : List UInt8) :
    HasBareCr bytes ↔
      (∃ i < width, bytes[i]? = some cr ∧ bytes[i + 1]? ≠ some lf) ∨
        HasBareCr (bytes.drop width) := by
  have hget : ∀ i, (bytes.drop width)[i]? = bytes[width + i]? := fun i => List.getElem?_drop ..
  constructor
  · rintro ⟨i, hc, hn⟩
    by_cases hi : i < width
    · exact .inl ⟨i, hi, hc, hn⟩
    · refine .inr ⟨i - width, ?_, ?_⟩
      · rw [hget, show width + (i - width) = i by omega]
        exact hc
      · rw [hget, show width + (i - width + 1) = i + 1 by omega]
        exact hn
  · rintro (⟨i, -, hc, hn⟩ | ⟨i, hc, hn⟩)
    · exact ⟨i, hc, hn⟩
    · rw [hget] at hc hn
      exact ⟨width + i, hc, hn⟩

namespace VectorScan

/-! ### The instructions -/

/-- A vector register, as its bytes. -/
abbrev Lanes (w : ℕ) : Type := Fin w → UInt8

/-- `_mm256_set1_epi8`, `_mm_set1_epi8`, `vdupq_n_u8`. -/
def set1 (w : ℕ) (b : UInt8) : Lanes w :=
  fun _ => b

/-- `_mm256_loadu_si256`, `_mm_loadu_si128`, `vld1q_u8`: the bytes from an offset on. -/
def loadu (w : ℕ) (bytes : List UInt8) (offset : ℕ) (h : offset + w ≤ bytes.length) : Lanes w :=
  fun i => bytes.get ⟨offset + i, by omega⟩

/-- `_mm256_cmpeq_epi8`, `_mm_cmpeq_epi8`, `vceqq_u8`: all bits of a lane, or none. -/
def cmpeq {w : ℕ} (a b : Lanes w) : Lanes w :=
  fun i => if a i = b i then 0xFF else 0

/-- `_mm256_movemask_epi8`, `_mm_movemask_epi8`: the upper bits of the lanes, as an `i32`. -/
def movemask {w : ℕ} (v : Lanes w) : BitVec 32 :=
  (BitVec.ofBoolListLE (List.ofFn fun i => (v i).toBitVec.msb)).setWidth 32

/-- `vandq_u8`. -/
def vand {w : ℕ} (a b : Lanes w) : Lanes w :=
  fun i => a i &&& b i

/-- `vmvnq_u8`. -/
def vmvn {w : ℕ} (a : Lanes w) : Lanes w :=
  fun i => ~~~ a i

/-- `vmaxvq_u8`: the greatest lane. -/
def vmaxv {w : ℕ} (v : Lanes w) : UInt8 :=
  (List.ofFn v).foldl (fun greatest b => if greatest.toNat ≤ b.toNat then b else greatest) 0

/-! ### The scans -/

/-- `cr_mask & !lf_mask != 0`. -/
def maskHit {w : ℕ} (current next : Lanes w) : Bool :=
  let crMask := movemask (cmpeq current (set1 w cr))
  let lfMask := movemask (cmpeq next (set1 w lf))
  crMask &&& ~~~ lfMask ≠ 0

/-- `vmaxvq_u8(vandq_u8(vceqq_u8(current, cr), vmvnq_u8(vceqq_u8(next, lf)))) != 0`. -/
def maxHit {w : ℕ} (current next : Lanes w) : Bool :=
  vmaxv (vand (cmpeq current (set1 w cr)) (vmvn (cmpeq next (set1 w lf)))) ≠ 0

/-- The loop of the three scans, from an offset on, with blocks of `w + 1` bytes: while the
shifted load stays in bounds, `bytes.len() - offset >= w + 2`; then the portable scan. -/
def scanLoop (w : ℕ) (hit : Lanes (w + 1) → Lanes (w + 1) → Bool) (bytes : List UInt8)
    (offset : ℕ) : Bool :=
  if h : w + 2 ≤ bytes.length - offset then
    if hit (loadu (w + 1) bytes offset (by omega))
      (loadu (w + 1) bytes (offset + 1) (by omega)) then
      true
    else scanLoop w hit bytes (offset + (w + 1))
  else portableScan (bytes.drop offset)
termination_by bytes.length - offset

/-- `scan_avx2`. -/
def scanAvx2 (bytes : List UInt8) : Bool :=
  scanLoop 31 maskHit bytes 0

/-- `scan_sse2`. -/
def scanSse2 (bytes : List UInt8) : Bool :=
  scanLoop 15 maskHit bytes 0

/-- `scan_neon`. -/
def scanNeon (bytes : List UInt8) : Bool :=
  scanLoop 15 maxHit bytes 0

/-- What the build targets, with what is detected of the processor at run time. -/
inductive Cpu
  /-- `x86` and `x86_64`. -/
  | x86 (avx2 sse2 : Bool)
  | aarch64 (neon : Bool)
  | other
  deriving DecidableEq

/-- `select_scan`. -/
def selectScan : Cpu → List UInt8 → Bool
  | .x86 true _ => scanAvx2
  | .x86 false true => scanSse2
  | .x86 false false => portableScan
  | .aarch64 true => scanNeon
  | .aarch64 false => portableScan
  | .other => portableScan

/-- `has_bare_cr`, with the scan that was selected. -/
def hasBareCrOn (cpu : Cpu) (bytes : List UInt8) : Bool :=
  if bytes.length < 64 then
    portableScan bytes
  else
    match bytes.findIdx? (· == cr) with
    | none => false
    | some firstCr =>
      let bytes := bytes.drop firstCr
      if bytes[1]? ≠ some lf then true else selectScan cpu bytes

/-! ### One pair of blocks -/

section Hit

variable {w : ℕ} {a b current next : Lanes w}

/-- A bit of the mask says whether its lane compared equal. -/
theorem getLsbD_movemask (hw : w ≤ 32) (a b : Lanes w) (i : ℕ) :
    (movemask (cmpeq a b)).getLsbD i = true ↔ ∃ h : i < w, a ⟨i, h⟩ = b ⟨i, h⟩ := by
  rw [movemask, BitVec.getLsbD_setWidth, BitVec.getLsbD_ofBoolListLE, Bool.and_eq_true,
    decide_eq_true_iff, List.getD_eq_getElem?_getD, List.getElem?_ofFn]
  split_ifs with hi
  · have hlane : (cmpeq a b ⟨i, hi⟩).toBitVec.msb = true ↔ a ⟨i, hi⟩ = b ⟨i, hi⟩ := by
      rw [cmpeq]
      split_ifs with heq
      · exact iff_of_true (by decide) heq
      · exact iff_of_false (by decide) heq
    rw [Option.getD_some, hlane]
    exact ⟨fun h => ⟨hi, h.2⟩, fun ⟨_, h⟩ => ⟨by omega, h⟩⟩
  · rw [Option.getD_none]
    exact iff_of_false (fun h => Bool.false_ne_true h.2) fun ⟨h, _⟩ => hi h

theorem ne_zero_iff (mask : BitVec 32) : mask ≠ 0 ↔ ∃ i, mask.getLsbD i = true := by
  constructor
  · intro hne
    by_contra hnone
    refine hne (BitVec.eq_of_getLsbD_eq fun i _ => ?_)
    rw [BitVec.ofNat_eq_ofNat, BitVec.getLsbD_zero, ← Bool.not_eq_true]
    exact fun hset => hnone ⟨i, hset⟩
  · rintro ⟨i, hset⟩ rfl
    rw [BitVec.ofNat_eq_ofNat, BitVec.getLsbD_zero] at hset
    cases hset

/-- **The masks meet in a carriage return without its line feed.** -/
theorem maskHit_iff (hw : w ≤ 32) (current next : Lanes w) :
    maskHit current next = true ↔ ∃ i, current i = cr ∧ next i ≠ lf := by
  rw [maskHit, decide_eq_true_iff, ne_zero_iff]
  constructor
  · rintro ⟨i, hset⟩
    rw [BitVec.getLsbD_and, BitVec.getLsbD_not, Bool.and_eq_true, Bool.and_eq_true,
      Bool.not_eq_true', ← Bool.not_eq_true, getLsbD_movemask hw, getLsbD_movemask hw] at hset
    obtain ⟨⟨hi, hcr⟩, -, hlf⟩ := hset
    exact ⟨⟨i, hi⟩, hcr, fun h => hlf ⟨hi, h⟩⟩
  · rintro ⟨⟨i, hi⟩, hcr, hlf⟩
    refine ⟨i, ?_⟩
    rw [BitVec.getLsbD_and, BitVec.getLsbD_not, Bool.and_eq_true, Bool.and_eq_true,
      Bool.not_eq_true', ← Bool.not_eq_true, getLsbD_movemask hw, getLsbD_movemask hw]
    exact ⟨⟨hi, hcr⟩, decide_eq_true (by omega), fun ⟨_, h⟩ => hlf h⟩

theorem foldl_greatest_eq_zero (lanes : List UInt8) (greatest : UInt8) :
    lanes.foldl (fun greatest b => if greatest.toNat ≤ b.toNat then b else greatest) greatest = 0 ↔
      greatest = 0 ∧ ∀ b ∈ lanes, b = 0 := by
  induction lanes generalizing greatest with
  | nil => simp
  | cons b lanes ih =>
    have hzero : ∀ c : UInt8, c = 0 ↔ c.toNat = 0 := fun c => UInt8.toNat_inj.symm
    rw [List.foldl_cons, ih, List.forall_mem_cons, ← and_assoc]
    refine and_congr_left fun _ => ?_
    split_ifs with hle
    · rw [hzero greatest, hzero b]
      omega
    · rw [hzero greatest, hzero b]
      omega

/-- **The maximum finds the same lane.** -/
theorem maxHit_iff (current next : Lanes w) :
    maxHit current next = true ↔ ∃ i, current i = cr ∧ next i ≠ lf := by
  have hlane : ∀ i, vand (cmpeq current (set1 w cr)) (vmvn (cmpeq next (set1 w lf))) i ≠ 0 ↔
      current i = cr ∧ next i ≠ lf := by
    intro i
    rw [vand, vmvn, cmpeq, cmpeq]
    change (if current i = cr then (0xFF : UInt8) else 0)
      &&& ~~~ (if next i = lf then (0xFF : UInt8) else 0) ≠ 0 ↔ _
    split_ifs with hcr hlf hlf
    · exact iff_of_false (by decide) fun h => h.2 hlf
    · exact iff_of_true (by decide) ⟨hcr, hlf⟩
    · exact iff_of_false (by decide) fun h => hcr h.1
    · exact iff_of_false (by decide) fun h => hcr h.1
  rw [maxHit, decide_eq_true_iff, vmaxv, Ne, foldl_greatest_eq_zero]
  constructor
  · intro hne
    by_contra hnone
    refine hne ⟨rfl, fun b hb => ?_⟩
    obtain ⟨i, rfl⟩ := List.mem_ofFn.mp hb
    by_contra hi
    exact hnone ⟨i, (hlane i).mp hi⟩
  · rintro ⟨i, hi⟩ ⟨-, hall⟩
    exact (hlane i).mpr hi (hall _ (List.mem_ofFn.mpr ⟨i, rfl⟩))

end Hit

/-! ### All blocks -/

/-- **The blocks and what is left of them hold a bare carriage return exactly when the bytes
do.** -/
theorem scanLoop_iff {w : ℕ} {hit : Lanes (w + 1) → Lanes (w + 1) → Bool}
    (hhit : ∀ current next, hit current next = true ↔ ∃ i, current i = cr ∧ next i ≠ lf)
    (bytes : List UInt8) (offset : ℕ) :
    scanLoop w hit bytes offset = true ↔ HasBareCr (bytes.drop offset) := by
  induction hn : bytes.length - offset using Nat.strongRecOn generalizing offset with
  | _ n ih =>
    rw [scanLoop]
    split_ifs with hlong hhere
    · obtain ⟨i, hcr, hlf⟩ := (hhit _ _).mp hhere
      refine iff_of_true rfl ⟨i, ?_, ?_⟩
      · rw [List.getElem?_drop, List.getElem?_eq_getElem (by omega)]
        exact congrArg some hcr
      · rw [List.getElem?_drop, List.getElem?_eq_getElem (by omega)]
        intro hnext
        refine hlf ?_
        rw [← Option.some.inj hnext]
        exact congrArg bytes.get (Fin.ext (by dsimp only; omega))
    · rw [ih _ (by omega) _ rfl, ← List.drop_drop, hasBareCr_drop (w + 1) (bytes.drop offset),
        or_iff_right]
      rintro ⟨i, hi, hcr, hlf⟩
      refine hhere ((hhit _ _).mpr ⟨⟨i, hi⟩, ?_, fun hnext => hlf ?_⟩)
      · rw [List.getElem?_drop, List.getElem?_eq_getElem (by omega)] at hcr
        exact Option.some.inj hcr
      · rw [List.getElem?_drop, List.getElem?_eq_getElem (by omega), ← hnext]
        exact congrArg (fun k => some (bytes.get k)) (Fin.ext (by dsimp only; omega))
    · exact portableScan_iff _

theorem scanAvx2_iff (bytes : List UInt8) : scanAvx2 bytes = true ↔ HasBareCr bytes :=
  scanLoop_iff (maskHit_iff (by decide)) bytes 0

theorem scanSse2_iff (bytes : List UInt8) : scanSse2 bytes = true ↔ HasBareCr bytes :=
  scanLoop_iff (maskHit_iff (by decide)) bytes 0

theorem scanNeon_iff (bytes : List UInt8) : scanNeon bytes = true ↔ HasBareCr bytes :=
  scanLoop_iff maxHit_iff bytes 0

/-- The first carriage return of the bytes starts what is scanned. -/
theorem hasBareCr_of_findIdx? {bytes : List UInt8} {firstCr : ℕ}
    (h : bytes.findIdx? (· == cr) = some firstCr) :
    (bytes.drop firstCr)[0]? = some cr ∧ (HasBareCr bytes ↔ HasBareCr (bytes.drop firstCr)) := by
  obtain ⟨hlt, hcr, hbefore⟩ := List.findIdx?_eq_some_iff_getElem.mp h
  constructor
  · rw [List.getElem?_drop, Nat.add_zero, List.getElem?_eq_getElem hlt]
    exact congrArg some (beq_iff_eq.mp hcr)
  · rw [hasBareCr_drop firstCr bytes, or_iff_right]
    rintro ⟨i, hi, hc, -⟩
    obtain ⟨hi', heq⟩ := List.getElem?_eq_some_iff.mp hc
    exact hbefore i hi (beq_iff_eq.mpr heq)

theorem selectScan_iff (cpu : Cpu) (bytes : List UInt8) :
    selectScan cpu bytes = true ↔ HasBareCr bytes := by
  unfold selectScan
  split
  · exact scanAvx2_iff bytes
  · exact scanSse2_iff bytes
  · exact portableScan_iff bytes
  · exact scanNeon_iff bytes
  · exact portableScan_iff bytes
  · exact portableScan_iff bytes

/-- **The dispatch answers the question on every processor.** -/
theorem hasBareCrOn_iff (cpu : Cpu) (bytes : List UInt8) :
    hasBareCrOn cpu bytes = true ↔ HasBareCr bytes := by
  unfold hasBareCrOn
  split_ifs with hshort
  · exact portableScan_iff bytes
  · split
    · next hnone =>
      refine iff_of_false Bool.false_ne_true ?_
      rintro ⟨i, hcr, -⟩
      have hnot := List.findIdx?_eq_none_iff.mp hnone cr (List.mem_of_getElem? hcr)
      exact absurd hnot (by decide)
    · next firstCr hfirst =>
      dsimp only
      obtain ⟨hstart, hskip⟩ := hasBareCr_of_findIdx? hfirst
      rw [hskip]
      split_ifs with hnext
      · exact iff_of_true rfl ⟨0, hstart, hnext⟩
      · exact selectScan_iff cpu _

/-- **Every scan answers as the portable one does**, for every slice: the three vector scans and the
dispatch on every processor find a bare carriage return exactly when there is one. -/
theorem hasBareCr_agree (bytes : List UInt8) :
    (portableScan bytes = true ↔ HasBareCr bytes) ∧
      scanAvx2 bytes = portableScan bytes ∧ scanSse2 bytes = portableScan bytes ∧
      scanNeon bytes = portableScan bytes ∧
      ∀ cpu, hasBareCrOn cpu bytes = portableScan bytes := by
  have hportable := portableScan_iff bytes
  exact ⟨hportable, Bool.eq_iff_iff.mpr ((scanAvx2_iff bytes).trans hportable.symm),
    Bool.eq_iff_iff.mpr ((scanSse2_iff bytes).trans hportable.symm),
    Bool.eq_iff_iff.mpr ((scanNeon_iff bytes).trans hportable.symm),
    fun cpu => Bool.eq_iff_iff.mpr ((hasBareCrOn_iff cpu bytes).trans hportable.symm)⟩

end VectorScan
end Terminal
end HelmSsh
