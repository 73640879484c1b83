/-
# One task to a staging file

Whether a staging file is that of one task (`Exclusive`): no two tasks at work have the same
one, and no call deletes it under a task.  `start_transfer` refuses a staging file that an
active record has, and `cleanup_transfer_record_staging` one that another record has.  But
`cancel_transfer_in_place` makes a record inactive before its task has ended, and then cleans
up by path.

`exclusive_of_run`: a staging file is that of one task in the runs in which no transfer is
started, and no record removed, over a canceled task that has not been joined (`Joined`).
`exclusive_fails`: otherwise it need not be.
-/

import HelmSsh.Transfer.Table

namespace HelmSsh
namespace Transfer
namespace Table

/-- The staging files that tasks are at work on are theirs alone. -/
structure Exclusive (s : State) : Prop where
  apart : ∀ (i j : ℕ) (r u : TransferRecord), s.records[i]? = some r → s.records[j]? = some u →
    r.uses = true → u.uses = true → r.request.stagingPath = u.request.stagingPath → i = j
  untouched : s.trampled = []

theorem mem_users {s : State} {path : StagingPath} {i : ℕ} (h : i ∈ s.users path) :
    ∃ r, s.records[i]? = some r ∧ r.uses = true ∧ r.request.stagingPath = path := by
  obtain ⟨r, hr, huses⟩ := (Option.any_eq_true _ _).mp (List.mem_filter.mp h).2
  rw [Bool.and_eq_true, decide_eq_true_iff] at huses
  exact ⟨r, hr, huses⟩

theorem Exclusive.users_eq {s : State} {path : StagingPath} {i j : ℕ} (h : Exclusive s)
    (hi : i ∈ s.users path) (hj : j ∈ s.users path) : i = j := by
  obtain ⟨r, hr, huses, hpath⟩ := mem_users hi
  obtain ⟨u, hu, huses', hpath'⟩ := mem_users hj
  exact h.apart i j r u hr hu huses huses' (hpath.trans hpath'.symm)

/-- No canceled transfer with the staging file has a task that has not been joined, or a
clean-up after an abort to come. -/
def JoinedOn (s : State) (path : StagingPath) : Prop :=
  ∀ r ∈ s.records, r.request.stagingPath = path → r.cancel = true →
    r.task = .ended ∧ r.canceling ≠ .cleaning

/-- **The condition of a step.**  A transfer is started when the canceled ones with its
staging file have been joined, and a record is removed when its task has ended. -/
def Joined (s : State) : Event → Prop
  | .start request => JoinedOn s request.stagingPath
  | .retry _ request => JoinedOn s request.stagingPath
  | .load _ _ _ _ => True
  | .prune oldest => ∀ i ∈ oldest, ∀ r ∈ s.records[i]?, r.task = .ended
  | .clear => ∀ r ∈ s.records, r.finished = true → r.task = .ended
  | .act i .remove => ∀ r ∈ s.records[i]?, r.task = .ended
  | .act i .retryRemove => ∀ r ∈ s.records[i]?, r.task = .ended
  | .act _ _ => True

instance (s : State) (path : StagingPath) : Decidable (JoinedOn s path) :=
  inferInstanceAs (Decidable (∀ r ∈ s.records, r.request.stagingPath = path → r.cancel = true →
    r.task = .ended ∧ r.canceling ≠ .cleaning))

instance (s : State) (event : Event) : Decidable (Joined s event) := by
  induction event using Event.casesOn with
  | act i action => induction action using Action.casesOn <;> dsimp only [Joined] <;> infer_instance
  | _ => dsimp only [Joined]; infer_instance

/-- **The invariant of exclusive use.**  Tasks that have not ended are in the table, on
staging files of their own that no clean-up after an abort is about to delete. -/
structure ExclusiveInv (s : State) : Prop where
  wf : s.Wf
  listed : ∀ (i : ℕ) (r : TransferRecord), s.records[i]? = some r → r.task ≠ .ended →
    r.listed = true
  apart : ∀ (i j : ℕ) (r u : TransferRecord), s.records[i]? = some r → s.records[j]? = some u →
    r.task ≠ .ended → u.task ≠ .ended → r.request.stagingPath = u.request.stagingPath → i = j
  spared : ∀ (i j : ℕ) (r u : TransferRecord), s.records[i]? = some r → s.records[j]? = some u →
    r.canceling = .cleaning → u.task ≠ .ended → r.request.stagingPath ≠ u.request.stagingPath
  untouched : s.trampled = []

theorem not_ended_of_uses {r : TransferRecord} (h : r.uses = true) : r.task ≠ .ended := by
  intro hended
  rw [TransferRecord.uses, hended] at h
  cases h

theorem ExclusiveInv.exclusive {s : State} (h : ExclusiveInv s) : Exclusive s where
  apart i j r u hr hu huses huses' :=
    h.apart i j r u hr hu (not_ended_of_uses huses) (not_ended_of_uses huses')
  untouched := h.untouched

/-- A change of a record that keeps the invariant: a task that goes on was going on in the
table, and a clean-up is new only when the task was going on before. -/
structure Calm (r r' : TransferRecord) : Prop where
  request : r'.request = r.request
  task : r'.task ≠ .ended → r.task ≠ .ended
  listed : r'.task ≠ .ended → r.listed = true → r'.listed = true
  cleaning : r'.canceling = .cleaning →
    r.canceling = .cleaning ∨ (r.task ≠ .ended ∧ r'.task = .ended)

namespace Calm

variable {r : TransferRecord}

theorem refl (r : TransferRecord) : Calm r r :=
  ⟨rfl, id, fun _ h => h, .inl⟩

theorem unlisted (h : r.task = .ended) : Calm r r.unlisted :=
  ⟨rfl, id, fun hs => absurd h hs, .inl⟩

theorem next_ended {file : Option ℕ} {action : Action} (henabled : r.Enabled file action)
    (hended : r.task = .ended) : (r.next file action).task = .ended := by
  cases action with
  | release =>
    simp only [TransferRecord.next]
    rw [if_neg (by rw [hended]; exact TaskPhase.noConfusion)]
    exact hended
  | progress bytesDone => exact (TransferRecord.mark_task _ _ _ _ _).trans hended
  | _ => simp_all [TransferRecord.Enabled, TransferRecord.next, TransferRecord.uses,
      TransferRecord.unlisted]

/-- A task that goes on stays in the table, unless its record is removed. -/
theorem next_listed {file : Option ℕ} {action : Action} (hwf : r.Wf)
    (henabled : r.Enabled file action) (hremove : action = .remove → r.task = .ended)
    (hretry : action = .retryRemove → r.task = .ended)
    (hrunning : (r.next file action).task ≠ .ended) (hlisted : r.listed = true) :
    (r.next file action).listed = true := by
  have hwas : r.task ≠ .ended := fun hended => hrunning (next_ended henabled hended)
  cases action with
  | release =>
    have hheld := (hwf.starting henabled).resolve_right hwas
    simp only [TransferRecord.next]
    rw [if_pos hheld]
    exact hlisted
  | markRunning => exact (TransferRecord.mark_listed _ _ _ _ _).trans hlisted
  | progress bytesDone => exact (TransferRecord.mark_listed _ _ _ _ _).trans hlisted
  | markCompleted => exact (TransferRecord.mark_listed _ _ _ _ _).trans hlisted
  | markFailed => exact (TransferRecord.mark_listed _ _ _ _ _).trans hlisted
  | remove => exact absurd (hremove rfl) hwas
  | retryRemove => exact absurd (hretry rfl) hwas
  | _ => exact hlisted

/-- Only an abort of a task that has not ended leaves a clean-up to be done. -/
theorem next_cleaning {file : Option ℕ} {action : Action} (henabled : r.Enabled file action)
    (hcleaning : (r.next file action).canceling = .cleaning) :
    r.canceling = .cleaning ∨ (r.task ≠ .ended ∧ (r.next file action).task = .ended) := by
  cases action with
  | release =>
    simp only [TransferRecord.next] at hcleaning
    split_ifs at hcleaning <;> exact .inl hcleaning
  | markRunning | markCompleted | markFailed =>
    exact .inl ((TransferRecord.mark_canceling _ _ _ _ _).symm.trans hcleaning)
  | progress bytesDone =>
    exact .inl ((TransferRecord.mark_canceling _ _ _ _ _).symm.trans hcleaning)
  | cancel => exact absurd hcleaning CancelCall.noConfusion
  | join => exact absurd hcleaning CancelCall.noConfusion
  | abort => exact .inr ⟨henabled.2, rfl⟩
  | cancelCleanup => exact absurd hcleaning CancelCall.noConfusion
  | _ => exact .inl hcleaning

/-- A step of a task or of a call, other than a removal before the task has ended. -/
theorem next (hwf : r.Wf) {file : Option ℕ} {action : Action} (henabled : r.Enabled file action)
    (hremove : action = .remove → r.task = .ended)
    (hretry : action = .retryRemove → r.task = .ended) : Calm r (r.next file action) where
  request := TransferRecord.next_request file r action
  task hrunning hended := hrunning (next_ended henabled hended)
  listed := next_listed hwf henabled hremove hretry
  cleaning := next_cleaning henabled

end Calm

variable {s s' : State} {request : Request}

/-- Changes that keep the invariant, record by record. -/
theorem ExclusiveInv.calm (h : ExclusiveInv s) (hwf : s'.Wf)
    (hcalm : ∀ (i : ℕ) (r' : TransferRecord), s'.records[i]? = some r' →
      ∃ r, s.records[i]? = some r ∧ Calm r r')
    (htrampled : s'.trampled = []) : ExclusiveInv s' := by
  refine ⟨hwf, ?_, ?_, ?_, htrampled⟩
  · intro i r' hr' hrunning
    obtain ⟨r, hr, hc⟩ := hcalm i r' hr'
    exact hc.listed hrunning (h.listed i r hr (hc.task hrunning))
  · intro i j r' u' hr' hu' hrunning hrunning' hpath
    obtain ⟨r, hr, hc⟩ := hcalm i r' hr'
    obtain ⟨u, hu, hd⟩ := hcalm j u' hu'
    rw [hc.request, hd.request] at hpath
    exact h.apart i j r u hr hu (hc.task hrunning) (hd.task hrunning') hpath
  · intro i j r' u' hr' hu' hcleaning hrunning hpath
    obtain ⟨r, hr, hc⟩ := hcalm i r' hr'
    obtain ⟨u, hu, hd⟩ := hcalm j u' hu'
    rw [hc.request, hd.request] at hpath
    rcases hc.cleaning hcleaning with hbefore | ⟨hwas, hended⟩
    · exact h.spared i j r u hr hu hbefore (hd.task hrunning) hpath
    · -- The task that was aborted was the only one on its staging file.
      obtain rfl := h.apart i j r u hr hu hwas (hd.task hrunning) hpath
      obtain rfl := Option.some.inj (hr'.symm.trans hu')
      exact hrunning hended

/-- A transfer that starts when no active and no canceled one has its staging file. -/
theorem ExclusiveInv.start (h : ExclusiveInv s) (hjoined : JoinedOn s request.stagingPath)
    (hstart : s.startTransfer request = some s') : ExclusiveInv s' := by
  obtain ⟨rfl, hinactive⟩ := startTransfer_eq_some hstart
  have hfree : ∀ (i : ℕ) (r : TransferRecord), s.records[i]? = some r →
      r.request.stagingPath = request.stagingPath → r.task = .ended ∧ r.canceling ≠ .cleaning := by
    intro i r hr hpath
    have hmem := List.mem_of_getElem? hr
    by_cases hcancel : r.cancel = true
    · exact hjoined r hmem hpath hcancel
    · have hended : r.task = .ended := by
        by_contra hrunning
        have haccepts := (h.wf i r hr).active hrunning (Bool.eq_false_iff.mpr hcancel)
        have hnot := hinactive r hmem hpath
        rw [TransferRecord.active, (h.wf i r hr).listed haccepts, haccepts] at hnot
        exact Bool.noConfusion hnot
      refine ⟨hended, fun hcleaning => hcancel ((h.wf i r hr).canceling ?_)⟩
      rw [hcleaning]
      exact CancelCall.noConfusion
  refine ⟨h.wf.append (TransferRecord.wf_new request), ?_, ?_, ?_, h.untouched⟩
  · intro i r hr hrunning
    rcases Pool.getElem?_add hr with ⟨_, rfl⟩ | hold
    · rfl
    · exact h.listed i r hold hrunning
  · intro i j r u hr hu hrunning hrunning' hpath
    rcases Pool.getElem?_add hr with ⟨hi, rfl⟩ | hold
    · rcases Pool.getElem?_add hu with ⟨hj, _⟩ | hold'
      · rw [hi, hj]
      · exact absurd (hfree j u hold' hpath.symm).1 hrunning'
    · rcases Pool.getElem?_add hu with ⟨_, rfl⟩ | hold'
      · exact absurd (hfree i r hold hpath).1 hrunning
      · exact h.apart i j r u hold hold' hrunning hrunning' hpath
  · intro i j r u hr hu hcleaning hrunning hpath
    rcases Pool.getElem?_add hr with ⟨_, rfl⟩ | hold
    · exact CancelCall.noConfusion hcleaning
    · rcases Pool.getElem?_add hu with ⟨_, rfl⟩ | hold'
      · exact (hfree i r hold hpath).2 hcleaning
      · exact h.spared i j r u hold hold' hcleaning hrunning hpath

theorem ExclusiveInv.load (h : ExclusiveInv s) {status : TaskStatus} {bytesDone bytesTotal : ℕ}
    (hwf : s'.Wf) (hload : step s (.load request status bytesDone bytesTotal) = some s') :
    ExclusiveInv s' := by
  obtain ⟨-, rfl⟩ := Option.ite_some_none_eq_some.mp hload
  refine ⟨hwf, ?_, ?_, ?_, h.untouched⟩
  · intro i r hr hrunning
    rcases Pool.getElem?_add hr with ⟨_, rfl⟩ | hold
    · rfl
    · exact h.listed i r hold hrunning
  · intro i j r u hr hu hrunning hrunning'
    rcases Pool.getElem?_add hr with ⟨_, rfl⟩ | hold
    · exact absurd rfl hrunning
    · rcases Pool.getElem?_add hu with ⟨_, rfl⟩ | hold'
      · exact absurd rfl hrunning'
      · exact h.apart i j r u hold hold' hrunning hrunning'
  · intro i j r u hr hu hcleaning hrunning
    rcases Pool.getElem?_add hr with ⟨_, rfl⟩ | hold
    · exact CancelCall.noConfusion hcleaning
    · rcases Pool.getElem?_add hu with ⟨_, rfl⟩ | hold'
      · exact absurd rfl hrunning
      · exact h.spared i j r u hold hold' hcleaning hrunning

/-- A staging file that an action deletes is not in use. -/
theorem ExclusiveInv.users_of_deletes (h : ExclusiveInv s) {i : ℕ} {r : TransferRecord}
    (hr : s.records[i]? = some r) {action : Action}
    (henabled : r.Enabled (s.files r.request.stagingPath) action)
    (hdeletes : s.deletes i r action = true) : s.users r.request.stagingPath = [] := by
  rw [List.eq_nil_iff_forall_not_mem]
  intro j hj
  obtain ⟨u, hu, huses, hpath⟩ := mem_users hj
  have hrunning := not_ended_of_uses huses
  cases action with
  | cancelCleanup => exact h.spared i j r u hr hu henabled hrunning hpath.symm
  | cleanup =>
    have hunlisted : r.listed = false := (h.wf i r hr).forgetting henabled
    have hlisted : u.listed = true := h.listed j u hu hrunning
    have hne : j ≠ i := by
      rintro rfl
      obtain rfl := Option.some.inj (hr.symm.trans hu)
      exact Bool.noConfusion (hunlisted.symm.trans hlisted)
    have hshared : s.shared i r.request.stagingPath = true := by
      refine List.any_eq_true.mpr ⟨j, (List.mem_filter.mp hj).1, ?_⟩
      simp [hu, hlisted, hne, hpath]
    rw [State.deletes, hshared, Bool.not_true, Bool.and_false] at hdeletes
    exact Bool.noConfusion hdeletes
  | _ => exact Bool.noConfusion hdeletes

/-- **Each step keeps the invariant**, when what it starts or removes has been joined. -/
theorem ExclusiveInv.step {event : Event} (h : ExclusiveInv s) (hjoined : Joined s event)
    (hstep : step s event = some s') : ExclusiveInv s' := by
  have hwf := step_wf h.wf hstep
  have hunlist : ∀ p : ℕ → TransferRecord → Bool, s' = s.unlist p →
      (∀ i r, s.records[i]? = some r → p i r = true → r.task = .ended) → ExclusiveInv s' := by
    rintro p rfl hp
    refine h.calm hwf (fun i r' hr' => ?_) h.untouched
    obtain ⟨r, hr, rfl⟩ := getElem?_unlist hr'
    refine ⟨r, hr, ?_⟩
    split_ifs with hi
    · exact Calm.unlisted (hp i r hr hi)
    · exact Calm.refl r
  cases event with
  | start request => exact h.start hjoined hstep
  | retry i request =>
    obtain ⟨r, hr, hretryable, hstart⟩ := retry_eq_some hstep
    have hnoted : ExclusiveInv
        { s with records := s.records.set i { r with retries := r.retries + 1 } } := by
      refine h.calm (h.wf.set ((h.wf i r hr).retry hretryable)) (fun j u hu => ?_) h.untouched
      rcases Pool.getElem?_set hu with ⟨rfl, rfl⟩ | ⟨_, hold⟩
      · exact ⟨r, hr, rfl, id, fun _ hlisted => hlisted, .inl⟩
      · exact ⟨u, hold, Calm.refl u⟩
    refine hnoted.start (fun u hu => ?_) hstart
    rcases List.mem_or_eq_of_mem_set hu with hold | rfl
    · exact hjoined u hold
    · exact hjoined r (List.mem_of_getElem? hr)
  | load request status bytesDone bytesTotal => exact h.load hwf hstep
  | prune oldest =>
    obtain ⟨hs', _⟩ := prune_eq_some hstep
    exact hunlist _ hs' fun i r hr hi => hjoined i (of_decide_eq_true hi) r hr
  | clear =>
    exact hunlist _ (Option.some.inj hstep).symm fun i r hr hi =>
      hjoined r (List.mem_of_getElem? hr) hi
  | act i action =>
    obtain ⟨r, hr, henabled, rfl⟩ := act_eq_some hstep
    have hcalm : Calm r (r.next (s.files r.request.stagingPath) action) := by
      refine Calm.next (h.wf i r hr) henabled ?_ ?_
      · rintro rfl
        exact hjoined r hr
      · rintro rfl
        exact hjoined r hr
    refine h.calm hwf (fun j u hu => ?_) ?_
    · rcases Pool.getElem?_set hu with ⟨rfl, rfl⟩ | ⟨_, hold⟩
      · exact ⟨r, hr, hcalm⟩
      · exact ⟨u, hold, Calm.refl u⟩
    · show (if s.deletes i r action = true then _ else _) = _
      split_ifs with hdeletes
      · rw [h.users_of_deletes hr henabled hdeletes, h.untouched]
        rfl
      · exact h.untouched

/-- **A staging file is that of one task**, in every run in which no transfer is started and
no record removed over a canceled task that has not been joined. -/
theorem exclusive_of_run {events : List Event} {s : State} (hjoined : table.Meets Joined events)
    (h : table.run events = some s) : Exclusive s := by
  have hempty : ∀ (i : ℕ) (r : TransferRecord), table.init.records[i]? ≠ some r := by
    intro i r hr
    cases hr
  have hinit : ExclusiveInv table.init :=
    ⟨wf_init, fun i r hr => absurd hr (hempty i r), fun i _ r _ hr => absurd hr (hempty i r),
      fun i _ r _ hr => absurd hr (hempty i r), rfl⟩
  have hstep : ∀ s event s', ExclusiveInv s → Joined s event → table.step s event = some s' →
      ExclusiveInv s' := fun _ _ _ hI hok hs => hI.step hok hs
  have hinv : ExclusiveInv s := Machine.run_invariant_of hinit hstep hjoined h
  exact hinv.exclusive

/-- A transfer that is canceled at work and joined, and retried then. -/
def canceledThenRetried : List Event :=
  [.start exampleRequest, .act 0 .release, .act 0 .acquire, .act 0 .markRunning,
    .act 0 (.touch (some 3)), .act 0 .cancel, .act 0 .fail, .act 0 .markFailed, .act 0 .join,
    .retry 0 exampleRequest, .act 0 .retryRemove, .act 1 .release, .act 1 .acquire,
    .act 1 .markRunning, .act 0 .cleanup]

/-- The staging file of the retried transfer is its own. -/
theorem exclusive_of_run_canceledThenRetried :
    ∃ s, table.run canceledThenRetried = some s ∧ s.files exampleRequest.stagingPath = some 3 ∧
      Exclusive s := by
  have hjoined : table.Meets Joined canceledThenRetried := by
    decide +kernel
  have hfile : (table.run canceledThenRetried).map (fun s => s.files exampleRequest.stagingPath) =
      some (some 3) := by
    decide +kernel
  obtain ⟨s, hrun, hfile⟩ := Option.map_eq_some_iff.mp hfile
  exact ⟨s, hrun, hfile, exclusive_of_run hjoined hrun⟩

/-- A transfer that is started again while its canceled task is still at work. -/
def startedOverCanceled : List Event :=
  [.start exampleRequest, .act 0 .release, .act 0 .acquire, .act 0 .markRunning,
    .act 0 (.touch (some 3)), .act 0 .cancel,
    .start exampleRequest, .act 1 .release, .act 1 .acquire, .act 1 .markRunning]

/-- **Two tasks are at work on one staging file** after the first was canceled and before it
has been joined. -/
theorem exclusive_fails :
    ∃ s, table.run startedOverCanceled = some s ∧ ¬Exclusive s := by
  have husers : (table.run startedOverCanceled).map (fun s => s.users exampleRequest.stagingPath) =
      some [0, 1] := by
    decide +kernel
  obtain ⟨s, hrun, husers⟩ := Option.map_eq_some_iff.mp husers
  refine ⟨s, hrun, fun h => ?_⟩
  have hsame :=
    h.users_eq (husers ▸ List.mem_cons_self) (husers ▸ List.mem_cons_of_mem 0 List.mem_cons_self)
  exact Nat.zero_ne_one hsame

end Table
end Transfer
end HelmSsh
