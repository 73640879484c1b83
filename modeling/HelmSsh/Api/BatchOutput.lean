/-
# The output of a batch of commands

`apply_batch_output_budget`, `truncate_text_tail` and what `rest_exec_batch` does with the results
of `src-tauri/src/api_server/handlers_remote.rs`: all results of a batch share one budget of output
bytes, which they take from in the order in which their commands end.

* `truncateTextTail_isTail` — a text is cut to its longest tail within the bytes it may have.
* `applyBatchOutputBudget_kept` — what one result keeps of the budget that is left at its turn.
* `batch_output_within_budget` — over any results in any order of completion: all that is kept is
  within the budget, every text is an end of the original, and only a result that asks for more than
  is left is shortened, and marked.
-/

import HelmSsh.Utf8.Tails
import Mathlib.Algebra.GroupWithZero.Nat

namespace HelmSsh
namespace Api
namespace BatchOutput

open Utf8

/-- `ExecResult`, as far as its output goes. -/
structure ExecResult where
  stdout : Str
  stderr : Str
  outputTruncated : Bool

/-- `BatchExecItemResult`. -/
structure BatchExecItemResult where
  index : ℕ
  id : Option String
  success : Bool
  result : Option ExecResult
  error : Option String

/-- `truncate_text_tail`. -/
def truncateTextTail (value : Str) (maxBytes : ℕ) : Str :=
  if value.len ≤ maxBytes then value
  else if maxBytes = 0 then .empty
  else
    ⟨value.bytes.drop (value.boundaryFrom value.len (value.len - maxBytes)),
      wellformed_drop (Str.leastBoundary_boundaryFrom value.len (value.len - maxBytes)
        (Nat.sub_le _ _) (Nat.le_add_left _ _)).boundary⟩

/-- `apply_batch_output_budget`, with what is left of the budget.  The lengths of two texts in
memory add up to less than `usize::MAX`, so `saturating_add` adds them. -/
def applyBatchOutputBudget (result : BatchExecItemResult) (remaining : ℕ) :
    BatchExecItemResult × ℕ :=
  match result.result with
  | none => (result, remaining)
  | some execResult =>
    let retained := execResult.stdout.len + execResult.stderr.len
    if retained ≤ remaining then (result, remaining - retained)
    else
      let stdout := truncateTextTail execResult.stdout (min remaining execResult.stdout.len)
      let left := remaining - stdout.len
      let stderr := truncateTextTail execResult.stderr (min left execResult.stderr.len)
      ({ result with result := some ⟨stdout, stderr, true⟩ }, left - stderr.len)

/-- The loop of `rest_exec_batch` over the results, as they are completed. -/
def applyAll (remaining : ℕ) : List BatchExecItemResult → List BatchExecItemResult
  | [] => []
  | result :: results =>
    (applyBatchOutputBudget result remaining).1
      :: applyAll (applyBatchOutputBudget result remaining).2 results

/-- The results in the answer of `rest_exec_batch`. -/
def restExecBatch (budget : ℕ) (completed : List BatchExecItemResult) :
    List BatchExecItemResult :=
  (applyAll budget completed).mergeSort fun a b => a.index ≤ b.index

/-- The output bytes of a result. -/
def BatchExecItemResult.retained (item : BatchExecItemResult) : ℕ :=
  match item.result with
  | none => 0
  | some execResult => execResult.stdout.len + execResult.stderr.len

/-- The output bytes of some results. -/
def total (items : List BatchExecItemResult) : ℕ :=
  (items.map BatchExecItemResult.retained).sum

/-! ### One text -/

variable {value text : Str} {maxBytes left : ℕ}

/-- **A text is cut to its longest tail.** -/
theorem truncateTextTail_isTail (value : Str) (maxBytes : ℕ) :
    value.IsTail maxBytes (truncateTextTail value maxBytes).bytes := by
  unfold truncateTextTail
  split_ifs with hfits hzero
  · exact Str.isTail_self hfits
  · subst hzero
    refine ⟨value.len, value.isCharBoundary_len, List.drop_length.symm, Nat.le_refl _,
      fun j hj hlen => ?_⟩
    rw [List.length_drop] at hlen
    change value.bytes.length ≤ j
    omega
  · have hleast := Str.leastBoundary_boundaryFrom (s := value) value.len (value.len - maxBytes)
      (Nat.sub_le _ _) (Nat.le_add_left _ _)
    exact hleast.isTail (Nat.le_refl _) fun j _ hj => by omega

/-- A text that was cut at a boundary: an end of the original, all of it if that is within what is
left. -/
structure End (left : ℕ) (original kept : Str) : Prop where
  suffix : ∃ index, original.isCharBoundary index = true ∧ kept.bytes = original.bytes.drop index
  fits : kept.len ≤ original.len
  shortened : kept.len < original.len → left < original.len

theorem End.refl (left : ℕ) (original : Str) : End left original original :=
  ⟨⟨0, rfl, List.drop_zero.symm⟩, Nat.le_refl _, fun h => absurd h (Nat.lt_irrefl _)⟩

/-- A text is cut to what is left, if that is less than the text. -/
theorem truncateTextTail_end (left : ℕ) (original : Str) :
    End left original (truncateTextTail original (min left original.len)) ∧
      (truncateTextTail original (min left original.len)).len ≤ left := by
  have htail := truncateTextTail_isTail original (min left original.len)
  have hwhole := htail.eq_iff
  obtain ⟨index, hboundary, hdrop, hlen, -⟩ := htail
  refine ⟨⟨⟨index, hboundary, hdrop⟩, Nat.le_trans hlen (Nat.min_le_right _ _),
    fun hshort => ?_⟩, Nat.le_trans hlen (Nat.min_le_left _ _)⟩
  by_contra hfits
  have hall := hwhole.mpr (by omega)
  rw [Str.len, hall] at hshort
  exact Nat.lt_irrefl _ hshort

/-! ### One result -/

/-- What a result keeps when so much of the budget is left. -/
structure Kept (left : ℕ) (original kept : ExecResult) : Prop where
  stdout : End left original.stdout kept.stdout
  stderr : End (left - kept.stdout.len) original.stderr kept.stderr
  shortened : kept.stdout.len + kept.stderr.len < original.stdout.len + original.stderr.len →
    left < original.stdout.len + original.stderr.len ∧ kept.outputTruncated = true
  marked : original.outputTruncated = true → kept.outputTruncated = true

/-- What a batch keeps of one of its results. -/
structure ItemKept (left : ℕ) (original kept : BatchExecItemResult) : Prop where
  index : kept.index = original.index
  id : kept.id = original.id
  success : kept.success = original.success
  error : kept.error = original.error
  none : original.result = none → kept.result = none
  some : ∀ execResult, original.result = some execResult →
    ∃ shown, kept.result = some shown ∧ Kept left execResult shown

/-- **One result takes from the budget what it keeps.** -/
theorem applyBatchOutputBudget_kept (item : BatchExecItemResult) (left : ℕ) :
    ItemKept left item (applyBatchOutputBudget item left).1 ∧
      (applyBatchOutputBudget item left).1.retained + (applyBatchOutputBudget item left).2
        = left := by
  obtain ⟨index, id, success, result, error⟩ := item
  cases result with
  | none => exact ⟨⟨rfl, rfl, rfl, rfl, fun _ => rfl,
      fun _ h => absurd h.symm (Option.some_ne_none _)⟩, Nat.zero_add _⟩
  | some execResult =>
    unfold applyBatchOutputBudget
    dsimp only
    split_ifs with hfits
    · refine ⟨⟨rfl, rfl, rfl, rfl, fun h => absurd h (Option.some_ne_none _),
        fun original h => ?_⟩,
        Nat.add_sub_of_le hfits⟩
      obtain rfl := Option.some.inj h
      exact ⟨execResult, rfl, .refl _ _, .refl _ _, fun h => absurd h (Nat.lt_irrefl _), fun h => h⟩
    · obtain ⟨hout, houtLe⟩ := truncateTextTail_end left execResult.stdout
      obtain ⟨herr, herrLe⟩ := truncateTextTail_end
        (left - (truncateTextTail execResult.stdout (min left execResult.stdout.len)).len)
        execResult.stderr
      refine ⟨⟨rfl, rfl, rfl, rfl, fun h => absurd h (Option.some_ne_none _),
        fun original h => ?_⟩, ?_⟩
      · obtain rfl := Option.some.inj h
        exact ⟨_, rfl, hout, herr, fun _ => ⟨by omega, rfl⟩, fun _ => rfl⟩
      · dsimp only [BatchExecItemResult.retained]
        omega

/-! ### All results of a batch -/

theorem length_applyAll (budget : ℕ) (completed : List BatchExecItemResult) :
    (applyAll budget completed).length = completed.length := by
  induction completed generalizing budget with
  | nil => rfl
  | cons item completed ih => exact congrArg (· + 1) (ih _)

theorem total_applyAll_le (budget : ℕ) (completed : List BatchExecItemResult) :
    total (applyAll budget completed) ≤ budget := by
  induction completed generalizing budget with
  | nil => exact Nat.zero_le _
  | cons item completed ih =>
    obtain ⟨-, htaken⟩ := applyBatchOutputBudget_kept item budget
    have hrest := ih (applyBatchOutputBudget item budget).2
    rw [applyAll, total, List.map_cons, List.sum_cons]
    change _ + total _ ≤ budget
    omega

/-- At its turn, a result finds what the results before it did not keep. -/
theorem applyAll_getElem? (budget : ℕ) (completed : List BatchExecItemResult) (i : ℕ)
    {item : BatchExecItemResult} (h : completed[i]? = some item) :
    ∃ kept, (applyAll budget completed)[i]? = some kept ∧
      ItemKept (budget - total ((applyAll budget completed).take i)) item kept := by
  induction completed generalizing budget i with
  | nil => cases h
  | cons first completed ih =>
    obtain ⟨hkept, htaken⟩ := applyBatchOutputBudget_kept first budget
    cases i with
    | zero =>
      obtain rfl := Option.some.inj h
      exact ⟨_, rfl, hkept⟩
    | succ i =>
      obtain ⟨kept, hget, hitem⟩ := ih (applyBatchOutputBudget first budget).2 i h
      refine ⟨kept, hget, ?_⟩
      have hleft : budget - total ((applyAll budget (first :: completed)).take (i + 1))
          = (applyBatchOutputBudget first budget).2
            - total ((applyAll (applyBatchOutputBudget first budget).2 completed).take i) := by
        rw [applyAll, List.take_succ_cons, total, List.map_cons, List.sum_cons]
        change budget - (_ + total _) = _
        omega
      rwa [hleft]

/-- **The output of a batch is within its budget**, in any order of completion: each text that is
kept is an end of the original that starts at a character; a result is shortened only when the
results that were completed before it have left less than it asks for, and then it is marked; and
the answer holds all results. -/
theorem batch_output_within_budget (budget : ℕ) (completed : List BatchExecItemResult) :
    total (restExecBatch budget completed) ≤ budget ∧
      (restExecBatch budget completed).Perm (applyAll budget completed) ∧
      (applyAll budget completed).length = completed.length ∧
      ∀ (i : ℕ) (item : BatchExecItemResult), completed[i]? = some item →
        ∃ kept, (applyAll budget completed)[i]? = some kept ∧
          ItemKept (budget - total ((applyAll budget completed).take i)) item kept := by
  have hperm : (restExecBatch budget completed).Perm (applyAll budget completed) :=
    List.mergeSort_perm _ _
  refine ⟨?_, hperm, length_applyAll budget completed,
    fun i item h => applyAll_getElem? budget completed i h⟩
  have hsame : total (restExecBatch budget completed) = total (applyAll budget completed) :=
    (hperm.map _).sum_nat
  rw [hsame]
  exact total_applyAll_le budget completed

end BatchOutput
end Api
end HelmSsh
