/-
# The outcome of a transfer and its target

Whether the status of a transfer tells what happened to its target (`Agrees`): a canceled or
failed transfer has not replaced it, a completed one has, with a staging file of the full
size.  The task polls `cancel` for the last time while it copies, and then checks the size of
the staging file and replaces the target; `cancel_transfer_in_place` sets the status in
between like at any other time, and `mark_transfer_completed` leaves it as it is then.

`agrees_of_run`: status and target agree in the runs in which no cancellation is accepted
behind the last poll, and no other task changes a staging file that has been checked
(`Timely`).  `agrees_fails`: otherwise they need not.
-/

import HelmSsh.Transfer.Table

namespace HelmSsh
namespace Transfer
namespace Table

/-- The status of a transfer tells what happened to its target. -/
structure Agrees (s : State) : Prop where
  kept : ∀ (i : ℕ) (r : TransferRecord), s.records[i]? = some r →
    r.status = .canceled ∨ r.status = .failed → ∀ size, (i, size) ∉ s.replacements
  replaced : ∀ (i : ℕ) (r : TransferRecord), s.records[i]? = some r →
    r.status = .completed → r.loaded = false → (i, r.request.bytesTotal) ∈ s.replacements

/-- **The condition of a step.**  A cancellation is accepted before the last poll of its task,
and a task changes its staging file while no other one has checked it. -/
def Timely (s : State) : Event → Prop
  | .act i .cancel => ∀ r ∈ s.records[i]?, r.pastPoll = false
  | .act i (.touch _) => ∀ r ∈ s.records[i]?, ∀ u ∈ s.records, u.task = .committing →
      u.request.stagingPath ≠ r.request.stagingPath
  | _ => True

instance (s : State) (event : Event) : Decidable (Timely s event) := by
  induction event using Event.casesOn with
  | act i action => induction action using Action.casesOn <;> dsimp only [Timely] <;> infer_instance
  | _ => dsimp only [Timely]; infer_instance

namespace TransferRecord

/-- The transfer has replaced its target. -/
def HasReplaced (r : TransferRecord) : Prop :=
  r.task = .replaced ∨ (r.task = .ended ∧ r.status = .completed)

/-- The transfer has replaced its target, or says so. -/
def SaysReplaced (r : TransferRecord) : Prop :=
  r.task = .replaced ∨ (r.status = .completed ∧ r.loaded = false)

end TransferRecord

/-- **The invariant of outcomes.**  A task behind its last poll is not canceled, what it has
checked has the full size, and the replaced targets are those of the transfers that say so. -/
structure OutcomeInv (s : State) : Prop where
  wf : s.Wf
  polled : ∀ (i : ℕ) (r : TransferRecord), s.records[i]? = some r → r.pastPoll = true →
    r.cancel = false
  verified : ∀ (i : ℕ) (r : TransferRecord), s.records[i]? = some r → r.task = .committing →
    ∀ size ∈ s.files r.request.stagingPath, size = r.request.bytesTotal
  sound : ∀ i size, (i, size) ∈ s.replacements →
    ∃ r, s.records[i]? = some r ∧ size = r.request.bytesTotal ∧ r.HasReplaced
  complete : ∀ (i : ℕ) (r : TransferRecord), s.records[i]? = some r → r.SaysReplaced →
    (i, r.request.bytesTotal) ∈ s.replacements

/-- The invariant says that the statuses agree with the targets. -/
theorem OutcomeInv.agrees {s : State} (h : OutcomeInv s) : Agrees s where
  kept := by
    intro i r hr hstatus size hmem
    obtain ⟨u, hu, _, hreplaced⟩ := h.sound i size hmem
    obtain rfl := Option.some.inj (hr.symm.trans hu)
    rcases hreplaced with htask | ⟨_, hcompleted⟩
    · have hcancel := h.polled i r hr (by rw [TransferRecord.pastPoll, htask])
      have haccepts := (h.wf i r hr).active (by rw [htask]; exact TaskPhase.noConfusion) hcancel
      rcases hstatus with hs | hs
      all_goals
        rw [hs] at haccepts
        exact Bool.noConfusion haccepts
    · rw [hcompleted] at hstatus
      rcases hstatus with hs | hs <;> exact TaskStatus.noConfusion hs
  replaced i r hr hstatus hloaded := h.complete i r hr (.inr ⟨hstatus, hloaded⟩)

/-- A change of a record that keeps what it says of its target. -/
structure Steady (r r' : TransferRecord) : Prop where
  request : r'.request = r.request
  polled : r'.pastPoll = true → r'.cancel = false
  committing : r'.task = .committing → r.task = .committing
  hasReplaced : r.HasReplaced → r'.HasReplaced
  saysReplaced : r'.SaysReplaced → r.SaysReplaced

namespace Steady

variable {r : TransferRecord}

/-- A change that leaves the task, the flag and the status alone. -/
theorem of_same {r' : TransferRecord} (hpolled : r.pastPoll = true → r.cancel = false)
    (hrequest : r'.request = r.request) (htask : r'.task = r.task) (hcancel : r'.cancel = r.cancel)
    (hstatus : r'.status = r.status) (hloaded : r'.loaded = r.loaded) : Steady r r' := by
  refine ⟨hrequest, ?_, ?_, ?_, ?_⟩
  · rw [TransferRecord.pastPoll, htask, hcancel]
    exact hpolled
  · rw [htask]
    exact id
  · rw [TransferRecord.HasReplaced, TransferRecord.HasReplaced, htask, hstatus]
    exact id
  · rw [TransferRecord.SaysReplaced, TransferRecord.SaysReplaced, htask, hstatus, hloaded]
    exact id

/-- A status that is not a completed one before or after, of a task that has not replaced its
target. -/
theorem of_going {r' : TransferRecord} (hrequest : r'.request = r.request)
    (hpolled : r'.pastPoll = true → r'.cancel = false)
    (hcommitting : r'.task = .committing → r.task = .committing)
    (hnot : ¬r.HasReplaced) (htask : r'.task ≠ .replaced)
    (hstatus : r'.status = .completed → r.status = .completed) (hloaded : r'.loaded = r.loaded) :
    Steady r r' where
  request := hrequest
  polled := hpolled
  committing := hcommitting
  hasReplaced h := absurd h hnot
  saysReplaced h := by
    rcases h with h | ⟨hs, hl⟩
    · exact absurd h htask
    · exact .inr ⟨hstatus hs, hloaded ▸ hl⟩

/-- A status that is not a completed one before or after, of a task that stays where it is. -/
theorem of_status {r' : TransferRecord} (hpolled : r.pastPoll = true → r.cancel = false)
    (hrequest : r'.request = r.request) (htask : r'.task = r.task) (hcancel : r'.cancel = r.cancel)
    (hbefore : r.status ≠ .completed) (hafter : r'.status ≠ .completed) : Steady r r' := by
  refine ⟨hrequest, ?_, fun h => htask ▸ h, fun h => ?_, fun h => ?_⟩
  · rw [TransferRecord.pastPoll, htask, hcancel]
    exact hpolled
  · rcases h with h | ⟨_, h⟩
    · exact .inl (htask.trans h)
    · exact absurd h hbefore
  · rcases h with h | ⟨h, _⟩
    · exact .inl (htask.symm.trans h)
    · exact absurd h hafter

theorem not_hasReplaced (hended : r.task ≠ .ended) (hreplaced : r.task ≠ .replaced) :
    ¬r.HasReplaced := by
  rintro (h | ⟨h, _⟩)
  · exact hreplaced h
  · exact hended h

/-- A task goes on to a phase that is neither behind the last poll nor the end. -/
theorem goOn {task : TaskPhase} (htask : r.task = task) (hended : task ≠ .ended)
    (hreplaced : task ≠ .replaced) {task' : TaskPhase}
    (hpolled : { r with task := task' }.pastPoll = true → r.cancel = false)
    (hcommitting : task' ≠ .committing) (hreplaced' : task' ≠ .replaced) :
    Steady r { r with task := task' } :=
  of_going rfl hpolled (fun h => absurd h hcommitting)
    (not_hasReplaced (htask ▸ hended) (htask ▸ hreplaced)) hreplaced' id rfl

/-- A status that a task at work marks its record with is not that of a completed one. -/
theorem mark_ne_completed {status : TaskStatus} {started : Bool} {bytesDone bytesTotal : ℕ}
    (hstatus : status ≠ .completed)
    (h : (r.mark status started bytesDone bytesTotal).status = .completed) :
    r.status = .completed := by
  rw [TransferRecord.mark_status] at h
  split_ifs at h
  · exact absurd h hstatus
  · exact h

/-- The end of a task that has replaced its target, which is not canceled. -/
theorem markCompleted (hwf : r.Wf) (hpolled : r.pastPoll = true → r.cancel = false)
    (htask : r.task = .replaced) (file : Option ℕ) : Steady r (r.next file .markCompleted) := by
  have hcancel := hpolled (by rw [TransferRecord.pastPoll, htask])
  have haccepts := hwf.active (by rw [htask]; exact TaskPhase.noConfusion) hcancel
  have hactive : r.active = true := Bool.and_eq_true_iff.mpr ⟨hwf.listed haccepts, haccepts⟩
  have hstatus : (r.next file .markCompleted).status = .completed := by
    show (r.mark _ _ _ _).status = _
    rw [TransferRecord.mark_status, if_pos hactive]
  exact ⟨TransferRecord.next_request file r .markCompleted, fun h => Bool.noConfusion h,
    fun h => TaskPhase.noConfusion h, fun _ => .inr ⟨rfl, hstatus⟩, fun _ => .inl htask⟩

/-- A step of a task or of a call, other than the check of the size and the replacement. -/
theorem next (hwf : r.Wf) (hpolled : r.pastPoll = true → r.cancel = false) {file : Option ℕ}
    {action : Action} (henabled : r.Enabled file action)
    (hcancel : action = .cancel → r.pastPoll = false) (hverify : action ≠ .verify)
    (hreplace : action ≠ .replace) : Steady r (r.next file action) := by
  have hactiveStatus : ∀ {status : TaskStatus}, r.status = status →
      acceptsTransferActivity status = true → r.status ≠ .completed := by
    rintro status rfl haccepts hcompleted
    rw [hcompleted] at haccepts
    exact Bool.noConfusion haccepts
  cases action with
  | release =>
    simp only [TransferRecord.next]
    split_ifs with hheld
    · exact of_going rfl (fun h => Bool.noConfusion h) (fun h => TaskPhase.noConfusion h)
        (not_hasReplaced (by rw [hheld]; exact TaskPhase.noConfusion)
          (by rw [hheld]; exact TaskPhase.noConfusion)) TaskPhase.noConfusion id rfl
    · exact of_same hpolled rfl rfl rfl rfl rfl
  | acquire =>
    exact goOn henabled.1 (by simp) (by simp) (fun h => Bool.noConfusion h) (by simp) (by simp)
  | markRunning =>
    have htask : r.task = .admitted := henabled
    refine of_going (TransferRecord.mark_request _ _ _ _ _) (fun h => Bool.noConfusion h)
      (fun h => TaskPhase.noConfusion h) (not_hasReplaced (by simp [htask]) (by simp [htask]))
      TaskPhase.noConfusion (mark_ne_completed ?_) (TransferRecord.mark_loaded _ _ _ _ _)
    split_ifs <;> exact TaskStatus.noConfusion
  | progress bytesDone =>
    have htask : (r.next file (.progress bytesDone)).task = r.task :=
      TransferRecord.mark_task _ _ _ _ _
    have hcancel : (r.next file (.progress bytesDone)).cancel = r.cancel :=
      TransferRecord.mark_cancel _ _ _ _ _
    have hnot : r.task ≠ .ended ∧ r.task ≠ .replaced := by
      rcases henabled with h | h
      all_goals
        rw [h]
        exact ⟨TaskPhase.noConfusion, TaskPhase.noConfusion⟩
    refine of_going (TransferRecord.mark_request _ _ _ _ _) ?_ (fun h => htask ▸ h)
      (not_hasReplaced hnot.1 hnot.2) (htask ▸ hnot.2) (mark_ne_completed ?_)
      (TransferRecord.mark_loaded _ _ _ _ _)
    · rw [TransferRecord.pastPoll, htask, hcancel]
      exact hpolled
    · split_ifs <;> exact TaskStatus.noConfusion
  | touch size => exact of_same hpolled rfl rfl rfl rfl rfl
  | lastPoll =>
    exact goOn henabled.1 (by simp) (by simp) (fun _ => henabled.2.1) (by simp) (by simp)
  | verify => exact absurd rfl hverify
  | replace => exact absurd rfl hreplace
  | fail =>
    have hnot : r.task ≠ .ended ∧ r.task ≠ .replaced := by
      rcases henabled with h | h | h
      · simp [h]
      · simp [h]
      · rw [TransferRecord.uses] at h
        split at h <;> simp_all
    exact of_going rfl (fun h => Bool.noConfusion h) (fun h => TaskPhase.noConfusion h)
      (not_hasReplaced hnot.1 hnot.2) TaskPhase.noConfusion id rfl
  | markCompleted => exact markCompleted hwf hpolled henabled file
  | markFailed =>
    have htask : r.task = .failed := henabled
    exact of_going (TransferRecord.mark_request _ _ _ _ _) (fun h => Bool.noConfusion h)
      (fun h => TaskPhase.noConfusion h) (not_hasReplaced (by simp [htask]) (by simp [htask]))
      TaskPhase.noConfusion (mark_ne_completed TaskStatus.noConfusion)
      (TransferRecord.mark_loaded _ _ _ _ _)
  | pause =>
    refine of_status hpolled rfl rfl rfl ?_ TaskStatus.noConfusion
    rcases henabled.2 with h | h <;> exact hactiveStatus h rfl
  | resume =>
    refine of_status hpolled rfl rfl rfl (hactiveStatus henabled.2 rfl) ?_
    show (if r.started = true then TaskStatus.running else .queued) ≠ .completed
    split_ifs <;> exact TaskStatus.noConfusion
  | cancel =>
    have hpast := hcancel rfl
    have haccepts := (Bool.and_eq_true_iff.mp henabled).2
    have hended : r.task ≠ .ended := fun h => by
      rw [hwf.ended h] at haccepts
      exact Bool.noConfusion haccepts
    have hreplaced : r.task ≠ .replaced := fun h => by
      rw [TransferRecord.pastPoll, h] at hpast
      exact Bool.noConfusion hpast
    exact of_going rfl (fun h => absurd (hpast.symm.trans h) Bool.noConfusion) id
      (not_hasReplaced hended hreplaced) hreplaced (fun h => TaskStatus.noConfusion h) rfl
  | join => exact of_same hpolled rfl rfl rfl rfl rfl
  | abort =>
    have hcanceled := hwf.canceling (by rw [henabled.1]; exact CancelCall.noConfusion)
    have hreplaced : r.task ≠ .replaced := fun h => by
      have hnot := hpolled (by rw [TransferRecord.pastPoll, h])
      exact Bool.noConfusion (hnot.symm.trans hcanceled)
    exact of_going rfl (fun h => Bool.noConfusion h) (fun h => TaskPhase.noConfusion h)
      (not_hasReplaced henabled.2 hreplaced) TaskPhase.noConfusion id rfl
  | cancelCleanup => exact of_same hpolled rfl rfl rfl rfl rfl
  | remove => exact of_same hpolled rfl rfl rfl rfl rfl
  | retryRemove => exact of_same hpolled rfl rfl rfl rfl rfl
  | cleanup => exact of_same hpolled rfl rfl rfl rfl rfl

end Steady

variable {s s' : State} {request : Request}

theorem OutcomeInv.refl (h : OutcomeInv s) (i : ℕ) (r : TransferRecord)
    (hr : s.records[i]? = some r) : Steady r r :=
  Steady.of_same (h.polled i r hr) rfl rfl rfl rfl rfl

/-- Steady changes of the records keep the invariant, and so do changes of staging files that
no task has checked. -/
theorem OutcomeInv.steady (h : OutcomeInv s) (hwf : s'.Wf)
    (hsteady : Pool.Related Steady s.records s'.records)
    (hfiles : ∀ (i : ℕ) (r : TransferRecord), s.records[i]? = some r → r.task = .committing →
      ∀ size ∈ s'.files r.request.stagingPath, size ∈ s.files r.request.stagingPath)
    (hreplacements : s'.replacements = s.replacements) : OutcomeInv s' := by
  refine ⟨hwf, ?_, ?_, ?_, ?_⟩
  · intro i r' hr' hpast
    obtain ⟨r, _, hst⟩ := hsteady.back hr'
    exact hst.polled hpast
  · intro i r' hr' htask size hsize
    obtain ⟨r, hr, hst⟩ := hsteady.back hr'
    rw [hst.request] at hsize ⊢
    have hcommitting := hst.committing htask
    exact h.verified i r hr hcommitting size (hfiles i r hr hcommitting size hsize)
  · intro i size hmem
    rw [hreplacements] at hmem
    obtain ⟨r, hr, hsize, hreplaced⟩ := h.sound i size hmem
    obtain ⟨r', hr', hst⟩ := hsteady.forth hr
    exact ⟨r', hr', by rw [hst.request, hsize], hst.hasReplaced hreplaced⟩
  · intro i r' hr' hclaim
    obtain ⟨r, hr, hst⟩ := hsteady.back hr'
    rw [hreplacements, hst.request]
    exact h.complete i r hr (hst.saysReplaced hclaim)

/-- A record that is appended and says nothing of a target. -/
theorem OutcomeInv.append (h : OutcomeInv s) {r : TransferRecord} (hwf : r.Wf)
    (hpast : r.pastPoll = false) (hcommitting : r.task ≠ .committing) (hclaim : ¬r.SaysReplaced) :
    OutcomeInv { s with records := s.records ++ [r] } := by
  refine ⟨h.wf.append hwf, ?_, ?_, ?_, ?_⟩
  · intro i u hu hpast'
    rcases Pool.getElem?_add hu with ⟨_, rfl⟩ | hold
    · exact absurd (hpast.symm.trans hpast') Bool.noConfusion
    · exact h.polled i u hold hpast'
  · intro i u hu htask
    rcases Pool.getElem?_add hu with ⟨_, rfl⟩ | hold
    · exact absurd htask hcommitting
    · exact h.verified i u hold htask
  · intro i size hmem
    obtain ⟨u, hu, hsound⟩ := h.sound i size hmem
    exact ⟨u, Pool.getElem?_add_left hu, hsound⟩
  · intro i u hu hclaim'
    rcases Pool.getElem?_add hu with ⟨_, rfl⟩ | hold
    · exact absurd hclaim' hclaim
    · exact h.complete i u hold hclaim'

/-- The other records say of the targets what they said before. -/
theorem OutcomeInv.sound_set (h : OutcomeInv s) {i : ℕ} {r r' : TransferRecord}
    (hr : s.records[i]? = some r) (hnot : ¬r.HasReplaced) {j size : ℕ}
    (hmem : (j, size) ∈ s.replacements) :
    ∃ u, (s.records.set i r')[j]? = some u ∧ size = u.request.bytesTotal ∧ u.HasReplaced := by
  obtain ⟨u, hu, hsize, hreplaced⟩ := h.sound j size hmem
  have hne : i ≠ j := by
    rintro rfl
    obtain rfl := Option.some.inj (hr.symm.trans hu)
    exact hnot hreplaced
  exact ⟨u, by rw [List.getElem?_set_ne hne]; exact hu, hsize, hreplaced⟩

/-- The check of the size: what a task has checked has the full size. -/
theorem OutcomeInv.verify (h : OutcomeInv s) {i : ℕ} {r : TransferRecord}
    (hr : s.records[i]? = some r) (htask : r.task = .verifying)
    (hwf : (s.after i r (r.next (s.files r.request.stagingPath) .verify) .verify).Wf) :
    OutcomeInv (s.after i r (r.next (s.files r.request.stagingPath) .verify) .verify) := by
  have hnot : ¬r.HasReplaced := Steady.not_hasReplaced (by simp [htask]) (by simp [htask])
  refine ⟨hwf, ?_, ?_, fun j size hmem => h.sound_set hr hnot hmem, ?_⟩
  · intro j u hu hpast
    rcases Pool.getElem?_set hu with ⟨_, rfl⟩ | ⟨_, hold⟩
    · exact h.polled i r hr (by rw [TransferRecord.pastPoll, htask])
    · exact h.polled j u hold hpast
  · intro j u hu hcommitting size hsize
    rcases Pool.getElem?_set hu with ⟨_, rfl⟩ | ⟨_, hold⟩
    · have hchecked : s.files r.request.stagingPath = some r.request.bytesTotal := by
        by_contra hfile
        rw [TransferRecord.next, if_neg hfile] at hcommitting
        exact TaskPhase.noConfusion hcommitting
      exact Option.some.inj (hsize.symm.trans hchecked)
    · exact h.verified j u hold hcommitting size hsize
  · intro j u hu hclaim
    rcases Pool.getElem?_set hu with ⟨rfl, rfl⟩ | ⟨_, hold⟩
    · refine h.complete j r hr (hclaim.elim (fun hs => ?_) .inr)
      rw [TransferRecord.next] at hs
      simp only at hs
      split_ifs at hs
    · exact h.complete j u hold hclaim

/-- The replacement of a target by a task that has checked its staging file. -/
theorem OutcomeInv.replace (h : OutcomeInv s) {i : ℕ} {r : TransferRecord}
    (hr : s.records[i]? = some r) (htask : r.task = .committing) {size : ℕ}
    (hsize : s.files r.request.stagingPath = some size)
    (hwf : (s.after i r (r.next (s.files r.request.stagingPath) .replace) .replace).Wf) :
    OutcomeInv (s.after i r (r.next (s.files r.request.stagingPath) .replace) .replace) := by
  have hnot : ¬r.HasReplaced := Steady.not_hasReplaced (by simp [htask]) (by simp [htask])
  have htotal : size = r.request.bytesTotal := h.verified i r hr htask size hsize
  have hreplacements :
      (s.after i r (r.next (s.files r.request.stagingPath) .replace) .replace).replacements =
        (i, size) :: s.replacements := by
    show ((s.files r.request.stagingPath).map fun size => (i, size)).toList ++ _ = _
    rw [hsize]
    rfl
  refine ⟨hwf, ?_, ?_, ?_, ?_⟩
  · intro j u hu hpast
    rcases Pool.getElem?_set hu with ⟨_, rfl⟩ | ⟨_, hold⟩
    · exact h.polled i r hr (by rw [TransferRecord.pastPoll, htask])
    · exact h.polled j u hold hpast
  · intro j u hu hcommitting other hother
    rcases Pool.getElem?_set hu with ⟨_, rfl⟩ | ⟨_, hold⟩
    · exact TaskPhase.noConfusion hcommitting
    · by_cases hpath : u.request.stagingPath = r.request.stagingPath
      · have hnone : s.filesAfter i r .replace u.request.stagingPath = none := by
          rw [hpath]
          exact Function.update_self ..
        exact absurd (hother.symm.trans hnone) (Option.some_ne_none other)
      · have hsame : s.filesAfter i r .replace u.request.stagingPath =
            s.files u.request.stagingPath := Function.update_of_ne hpath _ _
        exact h.verified j u hold hcommitting other (hsame.symm.trans hother)
  · intro j other hmem
    rw [hreplacements] at hmem
    rcases List.mem_cons.mp hmem with heq | hold
    · obtain ⟨rfl, rfl⟩ := Prod.mk.inj heq
      exact ⟨_, Pool.getElem?_set_self hr, htotal, .inl rfl⟩
    · exact h.sound_set hr hnot hold
  · intro j u hu hclaim
    rw [hreplacements]
    rcases Pool.getElem?_set hu with ⟨rfl, rfl⟩ | ⟨_, hold⟩
    · exact htotal ▸ List.mem_cons_self
    · exact List.mem_cons_of_mem _ (h.complete j u hold hclaim)

/-- What is left of a staging file that another task has checked is what it was. -/
theorem filesAfter_of_committing {i : ℕ} {r u : TransferRecord} {action : Action}
    (htouch : ∀ size, action = .touch size → u.request.stagingPath ≠ r.request.stagingPath)
    (hreplace : action ≠ .replace) {size : ℕ}
    (hsize : size ∈ s.filesAfter i r action u.request.stagingPath) :
    size ∈ s.files u.request.stagingPath := by
  have hdeleted : size ∈ (if s.deletes i r action then
      Function.update s.files r.request.stagingPath none else s.files) u.request.stagingPath →
      size ∈ s.files u.request.stagingPath := by
    intro hmem
    split_ifs at hmem
    · by_cases hpath : u.request.stagingPath = r.request.stagingPath
      · rw [hpath, Function.update_self] at hmem
        cases hmem
      · rwa [Function.update_of_ne hpath] at hmem
    · exact hmem
  cases action with
  | touch other =>
    have hsame : s.filesAfter i r (.touch other) u.request.stagingPath =
        s.files u.request.stagingPath := Function.update_of_ne (htouch other rfl) _ _
    rwa [hsame] at hsize
  | replace => exact absurd rfl hreplace
  | _ => exact hdeleted hsize

/-- A step of a task or of a call, other than the check of the size and the replacement. -/
theorem OutcomeInv.act (h : OutcomeInv s) {i : ℕ} {r : TransferRecord} {action : Action}
    (hr : s.records[i]? = some r)
    (henabled : r.Enabled (s.files r.request.stagingPath) action)
    (htimely : Timely s (.act i action)) (hverify : action ≠ .verify) (hreplace : action ≠ .replace)
    (hwf : (s.after i r (r.next (s.files r.request.stagingPath) action) action).Wf) :
    OutcomeInv (s.after i r (r.next (s.files r.request.stagingPath) action) action) := by
  have hsteady : Steady r (r.next (s.files r.request.stagingPath) action) := by
    refine Steady.next (h.wf i r hr) (h.polled i r hr) henabled ?_ hverify hreplace
    rintro rfl
    exact htimely r hr
  refine h.steady hwf (Pool.related_set h.refl hr hsteady) ?_ ?_
  · intro j u hu hcommitting size hsize
    refine filesAfter_of_committing ?_ hreplace hsize
    rintro other rfl
    exact htimely r hr u (List.mem_of_getElem? hu) hcommitting
  · cases action with
    | replace => exact absurd rfl hreplace
    | _ => rfl

/-- **Each step keeps the invariant**, when cancellations are accepted before the last poll and
no other task changes a staging file that has been checked. -/
theorem OutcomeInv.step {event : Event} (h : OutcomeInv s) (htimely : Timely s event)
    (hstep : step s event = some s') : OutcomeInv s' := by
  have hwf := step_wf h.wf hstep
  have hunlist : ∀ p : ℕ → TransferRecord → Bool, s' = s.unlist p → OutcomeInv s' := by
    rintro p rfl
    refine h.steady hwf (Pool.related_mapIdx fun i r hr => ?_) (fun _ _ _ _ _ hsize => hsize) rfl
    split_ifs
    · exact Steady.of_same (h.polled i r hr) rfl rfl rfl rfl rfl
    · exact h.refl i r hr
  have hstart : ∀ (s : State) request, OutcomeInv s → s.startTransfer request = some s' →
      OutcomeInv s' := by
    intro s request hs hstart
    obtain ⟨rfl, _⟩ := startTransfer_eq_some hstart
    refine hs.append (TransferRecord.wf_new request) rfl TaskPhase.noConfusion ?_
    rintro (hclaim | ⟨hclaim, _⟩)
    · exact TaskPhase.noConfusion hclaim
    · exact TaskStatus.noConfusion hclaim
  cases event with
  | start request => exact hstart s request h hstep
  | retry i request =>
    obtain ⟨r, hr, hretryable, hstep⟩ := retry_eq_some hstep
    refine hstart _ request ?_ hstep
    have hnoted : Steady r { r with retries := r.retries + 1 } :=
      Steady.of_same (h.polled i r hr) rfl rfl rfl rfl rfl
    exact h.steady (h.wf.set ((h.wf i r hr).retry hretryable)) (Pool.related_set h.refl hr hnoted)
      (fun _ _ _ _ _ hsize => hsize) rfl
  | load request status bytesDone bytesTotal =>
    obtain ⟨hremovable, rfl⟩ := Option.ite_some_none_eq_some.mp hstep
    refine h.append (TransferRecord.wf_load request bytesDone bytesTotal hremovable) rfl
      TaskPhase.noConfusion ?_
    rintro (hclaim | ⟨_, hclaim⟩)
    · exact TaskPhase.noConfusion hclaim
    · exact Bool.noConfusion hclaim
  | prune oldest => exact hunlist _ (prune_eq_some hstep).1
  | clear => exact hunlist _ (Option.some.inj hstep).symm
  | act i action =>
    obtain ⟨r, hr, henabled, rfl⟩ := act_eq_some hstep
    by_cases hverify : action = .verify
    · subst hverify
      exact h.verify hr henabled hwf
    · by_cases hreplace : action = .replace
      · subst hreplace
        obtain ⟨size, hsize⟩ := Option.isSome_iff_exists.mp henabled.2
        exact h.replace hr henabled.1 hsize hwf
      · exact h.act hr henabled htimely hverify hreplace hwf

/-- **The status of a transfer agrees with its target**, in every run in which no cancellation
is accepted behind the last poll of a task, and no other task changes a staging file that has
been checked. -/
theorem agrees_of_run {events : List Event} {s : State} (htimely : table.Meets Timely events)
    (h : table.run events = some s) : Agrees s := by
  have hempty : ∀ (i : ℕ) (r : TransferRecord), table.init.records[i]? ≠ some r := by
    intro i r hr
    cases hr
  have hinit : OutcomeInv table.init :=
    ⟨wf_init, fun i r hr => absurd hr (hempty i r), fun i r hr => absurd hr (hempty i r),
      fun _ _ hmem => absurd hmem List.not_mem_nil, fun i r hr => absurd hr (hempty i r)⟩
  have hstep : ∀ s event s', OutcomeInv s → Timely s event → table.step s event = some s' →
      OutcomeInv s' := fun _ _ _ hI hok hs => hI.step hok hs
  have hinv : OutcomeInv s := Machine.run_invariant_of hinit hstep htimely h
  exact hinv.agrees

/-- A transfer up to the check of its size. -/
def checkedTransfer : List Event :=
  [.start exampleRequest, .act 0 .release, .act 0 .acquire, .act 0 .markRunning,
    .act 0 (.touch (some 7)), .act 0 .lastPoll, .act 0 .verify]

/-- A transfer that is paused and resumed while it copies, and completes. -/
def completedTransfer : List Event :=
  [.start exampleRequest, .act 0 .release, .act 0 .acquire, .act 0 .markRunning, .act 0 .pause,
    .act 0 (.touch (some 7)), .act 0 .resume, .act 0 .lastPoll, .act 0 .verify, .act 0 .replace,
    .act 0 .markCompleted]

/-- The status of the completed transfer agrees with its target. -/
theorem agrees_of_run_completedTransfer :
    ∃ s, table.run completedTransfer = some s ∧ s.replacements = [(0, 7)] ∧ Agrees s := by
  have htimely : table.Meets Timely completedTransfer := by
    decide +kernel
  have hreplaced : (table.run completedTransfer).map (fun s => s.replacements) =
      some [(0, 7)] := by
    decide +kernel
  obtain ⟨s, hrun, hreplaced⟩ := Option.map_eq_some_iff.mp hreplaced
  exact ⟨s, hrun, hreplaced, agrees_of_run htimely hrun⟩

/-- **A canceled transfer replaces its target** when the cancellation is accepted behind the
last poll. -/
theorem agrees_fails :
    ∃ s, table.run (checkedTransfer ++ [.act 0 .cancel, .act 0 .replace]) = some s ∧
      ¬Agrees s := by
  have hview : (table.run (checkedTransfer ++ [.act 0 .cancel, .act 0 .replace])).map
      (fun s => (s.records.map fun r => r.status, s.replacements)) =
        some ([.canceled], [(0, 7)]) := by
    decide +kernel
  obtain ⟨s, hrun, hview⟩ := Option.map_eq_some_iff.mp hview
  obtain ⟨hstatuses, hreplaced⟩ := Prod.mk.inj hview
  obtain ⟨r, hrecords, hstatus⟩ := List.map_eq_singleton_iff.mp hstatuses
  refine ⟨s, hrun, fun h => ?_⟩
  have hr : s.records[0]? = some r := by
    rw [hrecords]
    rfl
  exact h.kept 0 r hr (.inl hstatus) 7 (hreplaced ▸ List.mem_cons_self)

end Table
end Transfer
end HelmSsh
