/-
# The transfer records of the user interface

`mergeTransferInfo` of `src/lib/transferRecords.ts`: what the list of transfers shows for a
transfer when another snapshot of it arrives, from an event or from the answer to a call.
Snapshots overtake each other and arrive twice, so the one that is kept is decided by the
status, by the time in milliseconds and by the bytes.

`Date.parse` is a parameter: whatever it makes of the timestamps, the order of the snapshots
is that of the milliseconds.

* `merge_converges` — in whatever order and however often the snapshots of one transfer
  arrive, the terminal one stays, and the bytes shown do not decrease.
-/

import Mathlib.Data.Int.Notation
import Mathlib.Data.Nat.Notation
import Mathlib.Data.List.Pairwise
import Mathlib.Order.Basic
import Mathlib.Tactic.Common

namespace HelmSsh
namespace Frontend

/-- `TransferInfo["status"]`. -/
inductive TransferStatus
  | queued
  | running
  | paused
  | completed
  | failed
  | canceled
  deriving DecidableEq

/-- `TransferInfo`, without the paths and the session. -/
structure TransferInfo where
  transferId : String
  status : TransferStatus
  bytesDone : ℕ
  bytesTotal : ℕ
  speedKbps : ℕ
  error : Option String
  createdAt : String
  updatedAt : String
  deriving DecidableEq

/-- `isTerminalTransferStatus`. -/
def isTerminalTransferStatus : TransferStatus → Bool
  | .completed | .failed | .canceled => true
  | _ => false

/-- `transferStatusRank`. -/
def transferStatusRank (status : TransferStatus) : ℕ :=
  if isTerminalTransferStatus status then 2
  else if status = .running || status = .paused then 1
  else 0

section Merge

variable (dateParse : String → Option ℤ)

/-- `transferUpdatedAt`: `Date.parse` gives no number for a text that is no date. -/
def transferUpdatedAt (transfer : TransferInfo) : ℤ :=
  let text := if transfer.updatedAt = "" then transfer.createdAt else transfer.updatedAt
  (dateParse text).getD 0

/-- `mergeTransferInfo`. -/
def mergeTransferInfo (current incoming : TransferInfo) : TransferInfo :=
  if current.transferId ≠ incoming.transferId then incoming
  else if isTerminalTransferStatus current.status && !isTerminalTransferStatus incoming.status then
    current
  else
    let currentUpdatedAt := transferUpdatedAt dateParse current
    let incomingUpdatedAt := transferUpdatedAt dateParse incoming
    if incomingUpdatedAt < currentUpdatedAt then current
    else if incomingUpdatedAt = currentUpdatedAt ∧ incoming.bytesDone < current.bytesDone then
      current
    else if incomingUpdatedAt = currentUpdatedAt ∧
        transferStatusRank incoming.status < transferStatusRank current.status then
      current
    else incoming

/-- What is shown after the snapshots have arrived, the first of them first. -/
def shown (first : TransferInfo) (rest : List TransferInfo) : TransferInfo :=
  rest.foldl (mergeTransferInfo dateParse) first

/-- **The snapshots that the back end emits for one transfer**, in their order. -/
structure Emitted (l : List TransferInfo) : Prop where
  same : ∀ x ∈ l, ∀ y ∈ l, x.transferId = y.transferId
  updatedAt : l.Pairwise fun x y => transferUpdatedAt dateParse x ≤ transferUpdatedAt dateParse y
  bytesDone : l.Pairwise fun x y => x.bytesDone ≤ y.bytesDone
  /-- Only the last one may be terminal. -/
  terminal : l.Pairwise fun x _ => isTerminalTransferStatus x.status = false

variable {dateParse} {l : List TransferInfo} {x y c : TransferInfo}

theorem mergeTransferInfo_or (c x : TransferInfo) :
    mergeTransferInfo dateParse c x = c ∨ mergeTransferInfo dateParse c x = x := by
  unfold mergeTransferInfo
  dsimp only
  split_ifs <;> simp

namespace Emitted

/-- Of two snapshots, one was emitted before the other. -/
theorem order (h : Emitted dateParse l) (hx : x ∈ l) (hy : y ∈ l) (hne : x ≠ y) :
    (transferUpdatedAt dateParse x ≤ transferUpdatedAt dateParse y ∧ x.bytesDone ≤ y.bytesDone ∧
        isTerminalTransferStatus x.status = false) ∨
      (transferUpdatedAt dateParse y ≤ transferUpdatedAt dateParse x ∧ y.bytesDone ≤ x.bytesDone ∧
        isTerminalTransferStatus y.status = false) := by
  obtain ⟨i, hi, rfl⟩ := List.mem_iff_getElem.mp hx
  obtain ⟨j, hj, rfl⟩ := List.mem_iff_getElem.mp hy
  have hall := List.pairwise_iff_getElem.mp (h.updatedAt.and (h.bytesDone.and h.terminal))
  rcases Nat.lt_trichotomy i j with hij | rfl | hji
  · exact .inl (hall i j hi hj hij)
  · exact absurd rfl hne
  · exact .inr (hall j i hj hi hji)

theorem terminal_unique (h : Emitted dateParse l) (hx : x ∈ l) (hy : y ∈ l)
    (htx : isTerminalTransferStatus x.status = true)
    (hty : isTerminalTransferStatus y.status = true) : x = y := by
  by_contra hne
  rcases h.order hx hy hne with ⟨-, -, hnot⟩ | ⟨-, -, hnot⟩
  · rw [htx] at hnot
    cases hnot
  · rw [hty] at hnot
    cases hnot

theorem merge_of_terminal (h : Emitted dateParse l) (hc : c ∈ l) (hx : x ∈ l)
    (hterminal : isTerminalTransferStatus c.status = true) :
    mergeTransferInfo dateParse c x = c := by
  cases hxt : isTerminalTransferStatus x.status with
  | true =>
    obtain rfl := h.terminal_unique hc hx hterminal hxt
    rcases mergeTransferInfo_or c c with heq | heq <;> exact heq
  | false =>
    unfold mergeTransferInfo
    rw [if_neg (not_not.mpr (h.same c hc x hx)), if_pos (by rw [hterminal, hxt]; rfl)]

theorem merge_terminal (h : Emitted dateParse l) (hc : c ∈ l) (hx : x ∈ l)
    (hterminal : isTerminalTransferStatus x.status = true) :
    mergeTransferInfo dateParse c x = x := by
  by_cases hne : c = x
  · subst hne
    exact h.merge_of_terminal hc hx hterminal
  rcases h.order hc hx hne with ⟨htime, hbytes, hnot⟩ | ⟨-, -, hnot⟩
  · have hrank : ¬ transferStatusRank x.status < transferStatusRank c.status := by
      unfold transferStatusRank
      rw [if_pos hterminal, if_neg (Bool.not_eq_true _ ▸ hnot)]
      split_ifs <;> omega
    unfold mergeTransferInfo
    dsimp only
    rw [if_neg (not_not.mpr (h.same c hc x hx)), if_neg (by rw [hnot]; simp),
      if_neg (Int.not_lt.mpr htime), if_neg fun hboth => Nat.not_lt.mpr hbytes hboth.2,
      if_neg fun hboth => hrank hboth.2]
  · rw [hterminal] at hnot
    cases hnot

theorem bytesDone_le_merge (h : Emitted dateParse l) (hc : c ∈ l) (hx : x ∈ l) :
    c.bytesDone ≤ (mergeTransferInfo dateParse c x).bytesDone := by
  by_cases hne : c = x
  · subst hne
    rcases mergeTransferInfo_or c c with heq | heq <;> exact Nat.le_of_eq (by rw [heq])
  rcases h.order hc hx hne with ⟨-, hbytes, -⟩ | ⟨htime, hbytes, -⟩
  · rcases mergeTransferInfo_or c x with heq | heq
    · exact Nat.le_of_eq (by rw [heq])
    · rw [heq]
      exact hbytes
  -- `x` was emitted first: it is taken over only at the same time and with the same bytes.
  · unfold mergeTransferInfo
    dsimp only
    rw [if_neg (not_not.mpr (h.same c hc x hx))]
    split_ifs with hterminal hold hfewer hrank
    · exact Nat.le_refl _
    · exact Nat.le_refl _
    · exact Nat.le_refl _
    · exact Nat.le_refl _
    · have hsame := Int.le_antisymm htime (Int.not_lt.mp hold)
      exact Nat.not_lt.mp fun hlt => hfewer ⟨hsame, hlt⟩

theorem merge_mem {first x : TransferInfo} (hfirst : first ∈ l) (hx : x ∈ l) :
    mergeTransferInfo dateParse first x ∈ l := by
  rcases mergeTransferInfo_or first x with heq | heq
  · rw [heq]
    exact hfirst
  · rw [heq]
    exact hx

theorem shown_mem {first : TransferInfo} {rest : List TransferInfo} (hfirst : first ∈ l)
    (hrest : ∀ x ∈ rest, x ∈ l) : shown dateParse first rest ∈ l := by
  induction rest generalizing first with
  | nil => exact hfirst
  | cons x rest ih =>
    exact ih (merge_mem hfirst (hrest x List.mem_cons_self)) fun y hy =>
      hrest y (List.mem_cons_of_mem x hy)

theorem shown_of_terminal (h : Emitted dateParse l) {first : TransferInfo}
    {rest : List TransferInfo} (hfirst : first ∈ l) (hrest : ∀ x ∈ rest, x ∈ l)
    (hterminal : isTerminalTransferStatus first.status = true) :
    shown dateParse first rest = first := by
  induction rest with
  | nil => rfl
  | cons x rest ih =>
    show shown dateParse (mergeTransferInfo dateParse first x) rest = first
    rw [h.merge_of_terminal hfirst (hrest x List.mem_cons_self) hterminal]
    exact ih fun y hy => hrest y (List.mem_cons_of_mem x hy)

theorem shown_terminal (h : Emitted dateParse l) {first t : TransferInfo}
    {rest : List TransferInfo} (hfirst : first ∈ l) (hrest : ∀ x ∈ rest, x ∈ l)
    (ht : t ∈ first :: rest) (hterminal : isTerminalTransferStatus t.status = true) :
    shown dateParse first rest = t := by
  induction rest generalizing first with
  | nil =>
    obtain rfl := List.mem_singleton.mp ht
    rfl
  | cons x rest ih =>
    have hx := hrest x List.mem_cons_self
    have hrest' : ∀ y ∈ rest, y ∈ l := fun y hy => hrest y (List.mem_cons_of_mem x hy)
    rcases List.mem_cons.mp ht with rfl | htail
    · exact h.shown_of_terminal hfirst hrest hterminal
    have hnext : mergeTransferInfo dateParse first x ∈ l := merge_mem hfirst hx
    refine ih hnext hrest' ?_
    rcases List.mem_cons.mp htail with rfl | htail
    · rw [h.merge_terminal hfirst hx hterminal]
      exact List.mem_cons_self
    · exact List.mem_cons_of_mem _ htail

end Emitted

/-- **The records converge.**  In whatever order and however often the snapshots of one
transfer arrive: the terminal one is shown in the end, a terminal status is never left, and
the bytes shown never decrease. -/
theorem merge_converges (hl : Emitted dateParse l) {first : TransferInfo}
    {rest : List TransferInfo} (harrive : ∀ x, x ∈ first :: rest ↔ x ∈ l) :
    (∀ t ∈ l, isTerminalTransferStatus t.status = true → shown dateParse first rest = t) ∧
      ∀ (seen later : List TransferInfo) (x : TransferInfo), rest = seen ++ x :: later →
        (isTerminalTransferStatus (shown dateParse first seen).status = true →
          isTerminalTransferStatus (shown dateParse first (seen ++ [x])).status = true) ∧
        (shown dateParse first seen).bytesDone ≤
          (shown dateParse first (seen ++ [x])).bytesDone := by
  have hfirst : first ∈ l := (harrive first).mp List.mem_cons_self
  have hrest : ∀ x ∈ rest, x ∈ l := fun x hx => (harrive x).mp (List.mem_cons_of_mem first hx)
  refine ⟨fun t ht hterminal => ?_, ?_⟩
  · exact hl.shown_terminal hfirst hrest ((harrive t).mpr ht) hterminal
  · rintro seen later x rfl
    have hseen : shown dateParse first seen ∈ l :=
      Emitted.shown_mem hfirst fun y hy => hrest y (List.mem_append_left _ hy)
    have hx : x ∈ l := hrest x (List.mem_append_right _ List.mem_cons_self)
    have hstep : shown dateParse first (seen ++ [x])
        = mergeTransferInfo dateParse (shown dateParse first seen) x := by
      unfold shown
      rw [List.foldl_append]
      rfl
    rw [hstep]
    refine ⟨fun hterminal => ?_, hl.bytesDone_le_merge hseen hx⟩
    rw [hl.merge_of_terminal hseen hx hterminal]
    exact hterminal

end Merge

/-- `Date.parse` on the first milliseconds of 1970. -/
def exampleParse (text : String) : Option ℤ :=
  if text = "1970-01-01T00:00:00.001Z" then some 1
  else if text = "1970-01-01T00:00:00.002Z" then some 2
  else none

/-- A transfer that runs. -/
def exampleRunning : TransferInfo where
  transferId := "t1"
  status := .running
  bytesDone := 3
  bytesTotal := 5
  speedKbps := 9
  error := none
  createdAt := "1970-01-01T00:00:00.001Z"
  updatedAt := "1970-01-01T00:00:00.001Z"

/-- The same when it is done. -/
def exampleCompleted : TransferInfo :=
  { exampleRunning with
    status := .completed, bytesDone := 5, speedKbps := 0,
    updatedAt := "1970-01-01T00:00:00.002Z" }

/-- The completion overtakes the progress, and arrives twice. -/
theorem merge_converges_overtaken :
    shown exampleParse exampleCompleted [exampleRunning, exampleCompleted] = exampleCompleted := by
  have hl : Emitted exampleParse [exampleRunning, exampleCompleted] :=
    ⟨by decide, by decide, by decide, by decide⟩
  refine (merge_converges hl fun x => ?_).1 exampleCompleted (by decide) rfl
  simp only [List.mem_cons, List.not_mem_nil, or_false]
  constructor
  · rintro (rfl | rfl | rfl)
    · exact .inr rfl
    · exact .inl rfl
    · exact .inr rfl
  · rintro (rfl | rfl)
    · exact .inr (.inl rfl)
    · exact .inl rfl

end Frontend
end HelmSsh
