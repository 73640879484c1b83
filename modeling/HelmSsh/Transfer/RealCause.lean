/-
# The error that a parallel transfer reports

A worker of `run_parallel_upload` or `run_parallel_download` that fails sets the cancel flag, and
the others end with “传输已取消” when they see it.  The function returns the first error in the order
of the parts; the comment in `src-tauri/src/remote/transfer.rs` promises the first real one.

* `firstError_real_iff` — the first error is a real one exactly when each canceled worker has a
  worker before it that failed by itself.
* `reports_real_cause_iff` — the same of every run, with the condition where the results are
  collected; and without a cancel from outside some worker did fail by itself.
* `reports_cancellation` — the first of two parts can hide the failure of the second.
-/

import HelmSsh.Transfer.Workers

namespace HelmSsh
namespace Transfer
namespace Workers

/-- A worker failed by itself. -/
def Worker.Met (w : Worker) : Prop :=
  ∃ error, w.failed = some (.met error)

/-- A worker was ended by the flag. -/
def Worker.Canceled (w : Worker) : Prop :=
  w.failed = some .canceled

/-- Each canceled worker has a worker before it that failed by itself. -/
def Led (workers : List Worker) : Prop :=
  ∀ (i : ℕ) (w : Worker), workers[i]? = some w → w.Canceled →
    ∃ j < i, ∃ v, workers[j]? = some v ∧ v.Met

/-- The results are collected when that is so. -/
def Ordered (s : State) (event : Event) : Prop :=
  event = .join → Led s.workers

/-- The error that a transfer returns, or will return when the file has been cut. -/
def Phase.failure : Phase → Option Failure
  | .truncating index error => some (.part index error)
  | .removing index error => some (.part index error)
  | .returned (.error failure) => some failure
  | _ => none

/-- An error is one that a part, or the transfer itself, has met. -/
def Failure.Real : Failure → Prop
  | .part _ (.met _) => True
  | .part _ .canceled => False
  | .own _ => True

/-- What is promised of the error that a transfer returns. -/
def ReportsRealCause (s : State) : Prop :=
  ∀ failure, s.phase.failure = some failure → failure.Real

/-! ### The first error -/

/-- The workers in front of the first error have none. -/
theorem firstError_min {workers : List Worker} {index : ℕ} {error : PartError}
    (h : firstError workers = some (index, error)) {j : ℕ} {v : Worker} (hj : j < index)
    (hv : workers[j]? = some v) : v.failed = none := by
  obtain ⟨front, entry, back, hsplit, hentry, hfront⟩ := List.findSome?_eq_some_iff.mp h
  obtain ⟨failed, -, heq⟩ := Option.map_eq_some_iff.mp hentry
  obtain ⟨rfl, rfl⟩ := Prod.mk.inj heq
  have hindex : entry.2 = front.length := by
    have hat : workers.zipIdx[front.length]? = some entry := by
      rw [hsplit, List.getElem?_append_right (Nat.le_refl _), Nat.sub_self]
      rfl
    rw [List.getElem?_zipIdx] at hat
    obtain ⟨w, -, rfl⟩ := Option.map_eq_some_iff.mp hat
    exact Nat.zero_add _
  have hmem : (v, j) ∈ front := by
    have hat : workers.zipIdx[j]? = some (v, j) := by
      rw [List.getElem?_zipIdx, hv, Option.map_some, Nat.zero_add]
    rw [hsplit, List.getElem?_append_left (by omega)] at hat
    exact List.mem_of_getElem? hat
  exact Option.map_eq_none_iff.mp (hfront (v, j) hmem)

theorem firstError_none {workers : List Worker} (h : firstError workers = none) {i : ℕ}
    {w : Worker} (hw : workers[i]? = some w) : w.failed = none := by
  have hat : (w, i) ∈ workers.zipIdx := List.mem_zipIdx_iff_getElem?.mpr hw
  exact Option.map_eq_none_iff.mp (List.findSome?_eq_none_iff.mp h (w, i) hat)

/-- **The first error is a real one** exactly when each canceled worker has one before it that
failed by itself. -/
theorem firstError_real_iff {workers : List Worker} :
    Led workers ↔ ∀ index error, firstError workers = some (index, error) → error ≠ .canceled := by
  constructor
  · rintro hled index error hfirst rfl
    obtain ⟨w, hw, hfailed⟩ := firstError_eq_some hfirst
    obtain ⟨j, hj, v, hv, met, hmet⟩ := hled index w hw hfailed
    rw [firstError_min hfirst hj hv] at hmet
    cases hmet
  · intro hreal i w hw hcanceled
    cases hfirst : firstError workers with
    | none =>
      rw [Worker.Canceled, firstError_none hfirst hw] at hcanceled
      cases hcanceled
    | some found =>
      obtain ⟨index, error⟩ := found
      obtain ⟨v, hv, hfailed⟩ := firstError_eq_some hfirst
      cases error with
      | canceled => exact absurd rfl (hreal index .canceled hfirst)
      | met error =>
        refine ⟨index, ?_, v, hv, error, hfailed⟩
        rcases Nat.lt_trichotomy index i with hlt | heq | hgt
        · exact hlt
        · rw [heq, hw] at hv
          obtain rfl := Option.some.inj hv
          rw [Worker.Canceled, hfailed] at hcanceled
          cases hcanceled
        · rw [Worker.Canceled, firstError_min hfirst hgt hw] at hcanceled
          cases hcanceled

/-! ### Runs -/

variable {direction : Direction} {source : Bytes} {bufferSize : ℕ}

variable {s s' : State} {event : Event}

theorem reports_of_none (h : s.phase.failure = none) : ReportsRealCause s := by
  intro failure hfailure
  rw [h] at hfailure
  cases hfailure

theorem reports_iff_of_eq (hfailure : s'.phase.failure = s.phase.failure) (hevent : event ≠ .join) :
    ReportsRealCause s' ↔ ReportsRealCause s ∧ Ordered s event := by
  rw [ReportsRealCause, hfailure]
  exact ⟨fun h => ⟨h, fun heq => absurd heq hevent⟩, fun h => h.1⟩

theorem reports_iff_of_own (hbefore : s.phase.failure = none)
    (hreal : ReportsRealCause s') (hevent : event ≠ .join) :
    ReportsRealCause s' ↔ ReportsRealCause s ∧ Ordered s event :=
  ⟨fun _ => ⟨reports_of_none hbefore, fun heq => absurd heq hevent⟩, fun _ => hreal⟩

theorem reports_own {error : AppError}
    (h : s.phase = .returned (.error (.own error))) : ReportsRealCause s := by
  intro failure hfailure
  rw [h] at hfailure
  obtain rfl := Option.some.inj hfailure
  trivial

/-- A step of the transfer itself keeps a real cause, and the results are collected with one exactly
when they are ordered. -/
theorem mainStep_reports (hinv : Inv direction source s)
    (h : mainStep direction source bufferSize s s.phase event = some s') :
    ReportsRealCause s' ↔ ReportsRealCause s ∧ Ordered s event := by
  unfold mainStep at h
  split at h
  case h_1 hphase | h_5 index error hphase | h_6 index error hphase |
      h_7 index error removed hphase | h_8 hphase =>
    obtain rfl := Option.some.inj h
    exact reports_iff_of_eq (by rw [hphase]; rfl) nofun
  case h_2 error hphase | h_9 error hphase | h_11 error hphase =>
    obtain rfl := Option.some.inj h
    exact reports_iff_of_own (by rw [hphase]; rfl) (reports_own rfl) nofun
  case h_3 i move hphase =>
    obtain ⟨w, hw, hstep⟩ := Option.bind_eq_some_iff.mp h
    obtain ⟨w', issued, cancel, rfl, -⟩ := workerStep_spec (hinv.workers i w hw)
      (hinv.part_le hw) (hinv.quiet i w hw) hstep
    exact reports_iff_of_eq rfl nofun
  case h_4 hphase =>
    split at h
    case isTrue =>
      obtain rfl := Option.some.inj h
      have hbefore : ReportsRealCause s := reports_of_none (by rw [hphase]; rfl)
      have hordered : Ordered s .join ↔ Led s.workers := ⟨fun h => h rfl, fun h _ => h⟩
      rw [hordered, firstError_real_iff]
      cases hfirst : firstError s.workers with
      | none =>
        refine ⟨fun _ => ⟨hbefore, nofun⟩, fun _ => reports_of_none ?_⟩
        cases direction with
        | upload => rfl
        | download => rfl
      | some found =>
        obtain ⟨index, error⟩ := found
        constructor
        · intro hreports
          refine ⟨hbefore, ?_⟩
          rintro i e heq rfl
          obtain ⟨rfl, rfl⟩ := Prod.mk.inj (Option.some.inj heq)
          exact hreports _ rfl
        · rintro ⟨-, hreal⟩ failure hfailure
          obtain rfl := Option.some.inj hfailure
          cases error with
          | met error => trivial
          | canceled => exact hreal index .canceled rfl rfl
    case isFalse => cases h
  case h_10 hphase =>
    obtain ⟨file, -, rfl⟩ := Option.map_eq_some_iff.mp h
    split_ifs
    · exact reports_iff_of_eq (by rw [hphase]; rfl) nofun
    · exact reports_iff_of_own (by rw [hphase]; rfl) (reports_own rfl) nofun
  case h_12 => cases h

/-- A step keeps a real cause, and the results are collected with one exactly when they are
ordered. -/
theorem step_reports (hinv : Inv direction source s)
    (h : step direction source bufferSize s event = some s') :
    ReportsRealCause s' ↔ ReportsRealCause s ∧ Ordered s event := by
  rcases step_cases h with hmain | ⟨⟨hjoin, -⟩, cancel, paused, file, pending, lost, rfl, -⟩
  · exact mainStep_reports hinv hmain
  · exact reports_iff_of_eq rfl hjoin

/-- Without a cancel from outside, the flag is set and a worker is canceled only after a worker
failed by itself. -/
def Induced (s : State) : Prop :=
  (s.cancel = true ∨ ∃ w ∈ s.workers, w.Canceled) → ∃ v ∈ s.workers, v.Met

theorem Induced.worker {i : ℕ} {w w' : Worker} {issued pending : List Write}
    {cancel : Bool} (hinduced : Induced s) (hw : s.workers[i]? = some w)
    (hmoved : Moved direction source s i w w' issued cancel) :
    Induced { s with cancel, workers := s.workers.set i w', pending } := by
  have hnew : w' ∈ s.workers.set i w' := List.mem_of_getElem? (Pool.getElem?_set_self hw)
  have hold : (s.cancel = true ∨ ∃ w ∈ s.workers, w.Canceled) →
      ∃ v ∈ s.workers.set i w', v.Met := by
    intro h
    obtain ⟨v, hv, error, hmet⟩ := hinduced h
    refine ⟨v, Pool.mem_set_of_ne hw hv ?_, error, hmet⟩
    rintro rfl
    unfold Worker.failed at hmet
    split at hmet
    case h_1 phase hphase => exact hmoved.running _ hphase
    case h_2 => cases hmet
  rintro (hcancel | ⟨v, hv, hcanceled⟩)
  · rcases hmoved.cancels with hsame | ⟨error, hended⟩
    · exact hold (.inl (hsame.symm.trans hcancel))
    · cases error with
      | met error =>
        refine ⟨w', hnew, error, ?_⟩
        rw [Worker.failed, hended]
      | canceled => exact hold (.inl (hmoved.canceled hended))
  · rcases List.mem_or_eq_of_mem_set hv with hmem | rfl
    · exact hold (.inr ⟨v, hmem, hcanceled⟩)
    · unfold Worker.Canceled Worker.failed at hcanceled
      split at hcanceled
      case h_1 error hphase =>
        obtain rfl := Option.some.inj hcanceled
        exact hold (.inl (hmoved.canceled hphase))
      case h_2 => cases hcanceled

theorem Induced.main (hinv : Inv direction source s) (hinduced : Induced s)
    (h : mainStep direction source bufferSize s s.phase event = some s') : Induced s' := by
  unfold mainStep at h
  split at h
  case h_3 i move hphase =>
    obtain ⟨w, hw, hstep⟩ := Option.bind_eq_some_iff.mp h
    obtain ⟨w', issued, cancel, rfl, hmoved⟩ := workerStep_spec (hinv.workers i w hw)
      (hinv.part_le hw) (hinv.quiet i w hw) hstep
    exact hinduced.worker hw hmoved
  case h_4 =>
    split at h
    · obtain rfl := Option.some.inj h
      exact hinduced
    · cases h
  case h_10 =>
    obtain ⟨file, -, rfl⟩ := Option.map_eq_some_iff.mp h
    split_ifs
    · exact hinduced
    · exact hinduced
  case h_12 => cases h
  all_goals
    obtain rfl := Option.some.inj h
    exact hinduced

/-- A step other than a cancel from outside keeps that. -/
theorem Induced.step (hinv : Inv direction source s)
    (hinduced : Induced s) (hevent : event ≠ .cancel)
    (h : step direction source bufferSize s event = some s') : Induced s' := by
  rcases step_cases h with hmain | ⟨-, cancel, paused, file, pending, lost, rfl, hcancel⟩
  · exact hinduced.main hinv hmain
  · obtain rfl := hcancel.resolve_left hevent
    exact hinduced

/-- **A parallel transfer reports the real cause exactly when** the results are collected with a
worker that failed by itself before each canceled one.  With nobody to cancel from outside, some
worker did fail by itself whenever one was canceled. -/
theorem reports_real_cause_iff (direction : Direction) (source : Bytes) (bufferSize parts : ℕ)
    (hparts : 0 < parts) (events : List Event) (s : State)
    (hrun : (transfer direction source bufferSize parts).run events = some s)
    (hquiet : Event.cancel ∉ events) :
    (ReportsRealCause s ↔ (transfer direction source bufferSize parts).Meets Ordered events) ∧
      ((∃ w ∈ s.workers, w.Canceled) → ∃ v ∈ s.workers, v.Met) := by
  constructor
  · refine Machine.run_iff_meets (inv_init hparts) (reports_of_none rfl)
      (fun s event s' hinv hstep => Inv.step hinv hstep) ?_ hrun
    exact fun s event s' hinv hstep => step_reports hinv hstep
  · have hinduced : Inv direction source s ∧ Induced s := by
      have hmeets : (transfer direction source bufferSize parts).Meets
          (fun _ event => event ≠ .cancel) events := by
        refine Machine.meetsFrom_of_forall fun event hmem => ?_
        rintro rfl
        exact hquiet hmem
      refine Machine.run_invariant_of (I := fun s => Inv direction source s ∧ Induced s)
        ⟨inv_init hparts, ?_⟩ ?_ hmeets hrun
      · rintro (hcancel | ⟨w, hw, hcanceled⟩)
        · cases hcancel
        · obtain ⟨part, -, rfl⟩ := List.mem_map.mp hw
          cases hcanceled
      · rintro s event s' ⟨hinv, hinduced⟩ hevent hstep
        exact ⟨Inv.step hinv hstep, Induced.step hinv hinduced hevent hstep⟩
    exact fun h => hinduced.2 (.inr h)

/-- The second of two parts fails to open its file; the first one finds the flag. -/
theorem reports_real_cause_iff_two : ∃ s,
    (transfer .download [7, 9] 4 2).run
      [.opened, .worker 0 .done, .worker 0 .done, .worker 0 .done,
        .worker 1 (.fail (.remote "open failed") 0), .worker 0 .look, .join] = some s ∧
      (ReportsRealCause s ↔ (transfer .download [7, 9] 4 2).Meets Ordered
        [.opened, .worker 0 .done, .worker 0 .done, .worker 0 .done,
          .worker 1 (.fail (.remote "open failed") 0), .worker 0 .look, .join]) := by
  refine (Option.isSome_iff_exists.mp (by decide)).imp fun s hs => ⟨hs, ?_⟩
  exact (reports_real_cause_iff .download [7, 9] 4 2 (by decide) _ s hs (by decide)).1

/-- **The cancellation of the first part hides the failure of the second.** -/
theorem reports_cancellation : ¬ ∀ direction source bufferSize parts, 0 < parts →
    ∀ events s, (transfer direction source bufferSize parts).run events = some s →
      Event.cancel ∉ events → ReportsRealCause s := by
  intro h
  have hrun : ∃ s,
      (transfer .download [7, 9] 4 2).run
        [.opened, .worker 0 .done, .worker 0 .done, .worker 0 .done,
          .worker 1 (.fail (.remote "open failed") 0), .worker 0 .look, .join, .truncate] =
        some s ∧ s.phase = .returned (.error (.part 0 .canceled)) :=
    ⟨_, rfl, rfl⟩
  obtain ⟨s, hs, hphase⟩ := hrun
  have hreal := h .download [7, 9] 4 2 (by decide) _ s hs (by decide) (.part 0 .canceled)
  rw [hphase] at hreal
  exact hreal rfl

end Workers
end Transfer
end HelmSsh
