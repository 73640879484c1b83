/-
# The statuses of the transfers

What the status of a `TransferRecord` says, in every run of the table: the calls
`transfer_pause`, `transfer_resume` and `cancel_transfer_in_place` of the user write it
beside the task's own `mark_transfer_running`, `mark_transfer_progress`,
`mark_transfer_completed` and `mark_transfer_failed`.

A record that accepts activity is `paused` exactly when its flag `paused` is set, and
`queued` and `running` tell whether the task has marked it as started
(`TransferRecord.Consistent`).  The last of these holds because `run_transfer` reports
progress only after `mark_transfer_running`, which `Marked.started` keeps through the run.
A status that accepts no activity is never left, and the queue of an SFTP session never
holds more than `maxPendingTransfersPerSftp` records: `statuses_of_run`.
-/

import HelmSsh.Transfer.Table

namespace HelmSsh
namespace Transfer
namespace Table

namespace TransferRecord

/-- The status of a record agrees with its flags and with its counters. -/
structure Consistent (r : TransferRecord) : Prop where
  paused : acceptsTransferActivity r.status = true → (r.status = .paused ↔ r.paused = true)
  queued : r.status = .queued → r.started = false
  running : r.status = .running → r.started = true
  /-- The counters of a record of the history are those of its file. -/
  completed : r.status = .completed → r.loaded = false → r.bytesDone = r.bytesTotal

/-- Besides, a task reports progress only for a record that it has marked as started. -/
structure Marked (r : TransferRecord) : Prop extends r.Consistent where
  started : acceptsTransferActivity r.status = true → r.task = .copying ∨ r.task = .verifying →
    r.started = true

theorem marked_new (request : Request) : (new request).Marked := by
  constructor
  · constructor <;> simp [new]
  · simp [new]

theorem marked_load (request : Request) {status : TaskStatus} (bytesDone bytesTotal : ℕ)
    (h : isRemovableTransferState status = true) :
    (load request status bytesDone bytesTotal).Marked := by
  have hnot := not_accepts_of_removable h
  constructor
  · refine ⟨fun hs => ?_, fun hs => ?_, fun hs => ?_, fun _ hl => ?_⟩
    · exact absurd (hnot.symm.trans hs) Bool.noConfusion
    · rw [show status = .queued from hs] at hnot
      cases hnot
    · rw [show status = .running from hs] at hnot
      cases hnot
    · cases hl
  · intro hs
    exact absurd (hnot.symm.trans hs) Bool.noConfusion

variable {r : TransferRecord}

theorem Marked.goOn (h : r.Marked) (task : TaskPhase)
    (htask : task = .copying ∨ task = .verifying → r.task = .copying ∨ r.task = .verifying) :
    Marked { r with task := task } :=
  { h with started := fun hs ht => h.started hs (htask ht) }

/-- The task marks its record as at work, as `mark_transfer_progress` does. -/
theorem Marked.mark (h : r.Marked) {started : Bool} (hstarted : r.active = true → started = true)
    (bytesDone : ℕ) :
    (r.mark (if r.paused then .paused else .running) started bytesDone r.bytesTotal).Marked := by
  unfold TransferRecord.mark
  split_ifs with hactive hpaused
  · have hs := hstarted hactive
    constructor
    · exact ⟨fun _ => ⟨fun _ => hpaused, fun _ => rfl⟩, nofun, nofun, nofun⟩
    · exact fun _ _ => hs
  · have hs := hstarted hactive
    constructor
    · exact ⟨fun _ => ⟨nofun, fun hp => absurd hp hpaused⟩, nofun, fun _ => hs, nofun⟩
    · exact fun _ _ => hs
  · exact h

/-- A record that still accepts activity after `mark_transfer_running` was marked by it. -/
theorem Wf.mark_started (h : r.Wf) (status : TaskStatus) (bytesDone bytesTotal : ℕ)
    (hs : acceptsTransferActivity (r.mark status true bytesDone bytesTotal).status = true) :
    (r.mark status true bytesDone bytesTotal).started = true := by
  unfold TransferRecord.mark at hs ⊢
  split_ifs at hs ⊢ with hactive
  · rfl
  · exact absurd (Bool.and_eq_true_iff.mpr ⟨h.listed hs, hs⟩) hactive

/-- The task ends and marks its record, with as many bytes done as there are if it has
completed. -/
theorem Marked.finish (h : r.Marked) {status : TaskStatus} (started : Bool)
    {bytesDone bytesTotal : ℕ} (hstatus : isRemovableTransferState status = true)
    (hbytes : status = .completed → bytesDone = bytesTotal) :
    Marked { r.mark status started bytesDone bytesTotal with task := .ended } := by
  have hnot := not_accepts_of_removable hstatus
  unfold TransferRecord.mark
  split_ifs with hactive
  · constructor
    · refine ⟨fun hs => ?_, fun hs => ?_, fun hs => ?_, fun hs _ => hbytes hs⟩
      · exact absurd (hnot.symm.trans hs) Bool.noConfusion
      · rw [show status = .queued from hs] at hnot
        cases hnot
      · rw [show status = .running from hs] at hnot
        cases hnot
    · nofun
  · exact h.goOn .ended nofun

/-- A record that is paused, resumed or canceled keeps what its status says of the task. -/
theorem Marked.setStatus (h : r.Marked) {r' : TransferRecord} (hr' : r'.Consistent)
    (htask : r'.task = r.task) (hstarted : r'.started = r.started)
    (hs : acceptsTransferActivity r'.status = true → acceptsTransferActivity r.status = true) :
    r'.Marked := by
  refine { hr' with started := fun hactive ht => ?_ }
  rw [htask] at ht
  rw [hstarted]
  exact h.started (hs hactive) ht

/-- **A step of the task or of a call keeps what the status says.** -/
theorem Marked.next (h : r.Marked) (hwf : r.Wf) {file : Option ℕ} {action : Action}
    (henabled : r.Enabled file action) : (r.next file action).Marked := by
  cases action with
  | release =>
    simp only [TransferRecord.next]
    split_ifs
    · exact { h with started := fun _ ht => by rcases ht with ht | ht <;> cases ht }
    · exact { h with }
  | acquire => exact h.goOn .admitted (by simp)
  | markRunning =>
    have hmarked := h.mark (fun _ => rfl) r.bytesDone
    exact { hmarked with started := fun hactive _ => hwf.mark_started _ _ _ hactive }
  | progress bytesDone =>
    refine h.mark (fun hactive => ?_) bytesDone
    exact h.started (Bool.and_eq_true_iff.mp hactive).2 henabled
  | touch size => exact h
  | lastPoll => exact h.goOn .verifying fun _ => .inl henabled.1
  | verify =>
    simp only [TransferRecord.next]
    split_ifs
    · exact h.goOn .committing (by simp)
    · exact h.goOn .failed (by simp)
  | replace => exact h.goOn .replaced (by simp)
  | fail => exact h.goOn .failed (by simp)
  | markCompleted => exact h.finish _ rfl fun _ => rfl
  | markFailed => exact h.finish _ rfl (by rintro ⟨⟩)
  | pause =>
    refine h.setStatus ?_ rfl rfl fun _ => ?_
    · exact ⟨fun _ => ⟨fun _ => rfl, fun _ => rfl⟩, (by rintro ⟨⟩), (by rintro ⟨⟩), (by rintro ⟨⟩)⟩
    rcases henabled.2 with hs | hs
    all_goals
      rw [hs]
      rfl
  | resume =>
    refine h.setStatus ?_ rfl rfl fun _ => ?_
    · simp only [TransferRecord.next]
      split_ifs with hstarted
      · exact ⟨fun _ => ⟨(by rintro ⟨⟩), (by rintro ⟨⟩)⟩, (by rintro ⟨⟩), fun _ => hstarted,
          (by rintro ⟨⟩)⟩
      · exact ⟨fun _ => ⟨(by rintro ⟨⟩), (by rintro ⟨⟩)⟩, fun _ => Bool.eq_false_iff.mpr hstarted,
          (by rintro ⟨⟩), (by rintro ⟨⟩)⟩
    · rw [henabled.2]
      rfl
  | cancel =>
    refine h.setStatus ?_ rfl rfl (by rintro ⟨⟩)
    exact ⟨(by rintro ⟨⟩), (by rintro ⟨⟩), (by rintro ⟨⟩), (by rintro ⟨⟩)⟩
  | join => exact { h with }
  | abort => exact { h with started := fun _ ht => by rcases ht with ht | ht <;> cases ht }
  | cancelCleanup => exact { h with }
  | remove => exact { h with }
  | retryRemove => exact { h with }
  | cleanup => exact { h with }

/-- A task does not mark a record whose status accepts no activity. -/
theorem mark_status_of_removable (h : isRemovableTransferState r.status = true)
    (status : TaskStatus) (started : Bool) (bytesDone bytesTotal : ℕ) :
    (r.mark status started bytesDone bytesTotal).status = r.status := by
  have hnot : r.active = false := by
    rw [active, not_accepts_of_removable h, Bool.and_false]
  rw [mark_status, hnot]
  rfl

/-- **A status that accepts no activity is not left.** -/
theorem next_status_of_removable {file : Option ℕ} {action : Action}
    (henabled : r.Enabled file action) (h : isRemovableTransferState r.status = true) :
    (r.next file action).status = r.status := by
  have hnot := not_accepts_of_removable h
  cases action with
  | release =>
    simp only [next]
    split_ifs <;> rfl
  | markRunning => exact mark_status_of_removable h _ _ _ _
  | progress bytesDone => exact mark_status_of_removable h _ _ _ _
  | markCompleted => exact mark_status_of_removable h _ _ _ _
  | markFailed => exact mark_status_of_removable h _ _ _ _
  | pause => rcases henabled.2 with hs | hs <;> exact absurd h (by rw [hs]; exact Bool.noConfusion)
  | resume => exact absurd h (by rw [henabled.2]; exact Bool.noConfusion)
  | cancel =>
    exact absurd (Bool.and_eq_true_iff.mp henabled).2 (by rw [hnot]; exact Bool.noConfusion)
  | _ => rfl

theorem active_of_mark {status : TaskStatus} {started : Bool} {bytesDone bytesTotal : ℕ}
    (h : (r.mark status started bytesDone bytesTotal).active = true) : r.active = true := by
  unfold mark at h
  split_ifs at h with hactive
  · exact hactive
  · exact h

/-- **Only `start_transfer` makes a record active.** -/
theorem active_of_next {file : Option ℕ} {action : Action} (henabled : r.Enabled file action)
    (h : (r.next file action).active = true) : r.active = true := by
  cases action with
  | release =>
    simp only [next] at h
    split_ifs at h
    · exact h
    · cases h
  | markRunning => exact active_of_mark h
  | progress bytesDone => exact active_of_mark h
  | markCompleted => exact active_of_mark h
  | markFailed => exact active_of_mark h
  | pause =>
    rw [active, henabled.1]
    rcases henabled.2 with hs | hs
    all_goals
      rw [hs]
      rfl
  | resume =>
    rw [active, henabled.1, henabled.2]
    rfl
  | cancel => exact henabled
  | remove => cases h
  | retryRemove => cases h
  | _ => exact h

end TransferRecord

/-! ### The queues of the sessions -/

/-- The records that count for the queue of an SFTP session. -/
def State.pending (s : State) (sftpId : ℕ) : ℕ :=
  s.records.countP fun r => r.active && r.request.sftpId = sftpId

/-- No queue holds more than `maxPendingTransfersPerSftp` records. -/
def State.Admitted (s : State) : Prop :=
  ∀ sftpId, s.pending sftpId ≤ maxPendingTransfersPerSftp

variable {s s' : State} {request : Request}

/-- A replaced record that is active only where the old one was. -/
theorem State.Admitted.set (h : s.Admitted) {i : ℕ} {r r' : TransferRecord}
    (hr : s.records[i]? = some r) (hactive : r'.active = true → r.active = true)
    (hrequest : r'.request = r.request) (files : StagingPath → Option ℕ)
    (replacements : List (ℕ × ℕ)) (trampled : List ℕ) :
    State.Admitted ⟨s.records.set i r', files, replacements, trampled⟩ := by
  intro sftpId
  refine (Pool.countP_set_le hr fun hp => ?_).trans (h sftpId)
  rw [hrequest, Bool.and_eq_true_iff] at hp
  exact Bool.and_eq_true_iff.mpr ⟨hactive hp.1, hp.2⟩

theorem State.Admitted.append (h : s.Admitted) {r : TransferRecord} (hr : r.active = false) :
    State.Admitted { s with records := s.records ++ [r] } := by
  intro sftpId
  have hle := h sftpId
  rw [State.pending, List.countP_append, List.countP_singleton, hr]
  exact hle

theorem State.Admitted.unlist (h : s.Admitted) (p : ℕ → TransferRecord → Bool) :
    (s.unlist p).Admitted := by
  intro sftpId
  refine (Pool.countP_mapIdx_le fun i r hp => ?_).trans (h sftpId)
  split_ifs at hp
  · cases hp
  · exact hp

/-- **A transfer that starts finds room in the queue of its session.** -/
theorem State.Admitted.start (h : s.Admitted) (hstart : s.startTransfer request = some s') :
    s'.Admitted := by
  unfold State.startTransfer at hstart
  split_ifs at hstart with hguard
  obtain rfl := Option.some.inj hstart
  intro sftpId
  have hle := h sftpId
  rw [State.pending, List.countP_append, List.countP_singleton]
  by_cases heq : request.sftpId = sftpId
  · subst heq
    have hlt := hguard.1
    split_ifs
    · omega
    · omega
  · rw [if_neg]
    · exact hle
    · simp [TransferRecord.new, heq]

/-- **The queues stay within their bound.** -/
theorem step_admitted {event : Event} (h : s.Admitted) (hstep : step s event = some s') :
    s'.Admitted := by
  cases event with
  | start request => exact h.start hstep
  | retry i request =>
    obtain ⟨r, hr, _, hstart⟩ := retry_eq_some hstep
    have hset : State.Admitted
        { s with records := s.records.set i { r with retries := r.retries + 1 } } := by
      refine h.set hr ?_ ?_ _ _ _
      · exact id
      · rfl
    exact hset.start hstart
  | load request status bytesDone bytesTotal =>
    obtain ⟨hremovable, rfl⟩ := Option.ite_some_none_eq_some.mp hstep
    refine h.append ?_
    rw [TransferRecord.active]
    exact Bool.and_eq_false_iff.mpr (.inr (TransferRecord.not_accepts_of_removable hremovable))
  | prune oldest =>
    obtain ⟨rfl, _⟩ := prune_eq_some hstep
    exact h.unlist _
  | clear =>
    obtain rfl := Option.some.inj hstep
    exact h.unlist _
  | act i action =>
    obtain ⟨r, hr, henabled, rfl⟩ := act_eq_some hstep
    exact h.set hr (TransferRecord.active_of_next henabled) (TransferRecord.next_request _ r action)
      _ _ _

/-! ### Runs -/

/-- What the records of a state say, and how many of them are active. -/
structure State.Consistent (s : State) : Prop where
  wf : s.Wf
  marked : ∀ (i : ℕ) (r : TransferRecord), s.records[i]? = some r → r.Marked
  admitted : s.Admitted

/-- **The records keep saying what they should.** -/
theorem step_marked {event : Event} (h : s.Consistent) (hstep : step s event = some s') (i : ℕ)
    (u : TransferRecord) (hu : s'.records[i]? = some u) : u.Marked := by
  cases event with
  | start request =>
    obtain ⟨rfl, _⟩ := startTransfer_eq_some hstep
    rcases Pool.getElem?_add hu with ⟨_, rfl⟩ | hold
    · exact TransferRecord.marked_new request
    · exact h.marked i u hold
  | retry j request =>
    obtain ⟨r, hr, _, hstart⟩ := retry_eq_some hstep
    obtain ⟨rfl, _⟩ := startTransfer_eq_some hstart
    rcases Pool.getElem?_add hu with ⟨_, rfl⟩ | hold
    · exact TransferRecord.marked_new request
    · rcases Pool.getElem?_set hold with ⟨_, rfl⟩ | ⟨_, hold⟩
      · exact { h.marked j r hr with }
      · exact h.marked i u hold
  | load request status bytesDone bytesTotal =>
    obtain ⟨hremovable, rfl⟩ := Option.ite_some_none_eq_some.mp hstep
    rcases Pool.getElem?_add hu with ⟨_, rfl⟩ | hold
    · exact TransferRecord.marked_load request bytesDone bytesTotal hremovable
    · exact h.marked i u hold
  | prune oldest =>
    obtain ⟨rfl, _⟩ := prune_eq_some hstep
    obtain ⟨r, hr, rfl⟩ := getElem?_unlist hu
    split_ifs
    · exact { h.marked i r hr with }
    · exact h.marked i r hr
  | clear =>
    obtain rfl := Option.some.inj hstep
    obtain ⟨r, hr, rfl⟩ := getElem?_unlist hu
    split_ifs
    · exact { h.marked i r hr with }
    · exact h.marked i r hr
  | act j action =>
    obtain ⟨r, hr, henabled, rfl⟩ := act_eq_some hstep
    rcases Pool.getElem?_set hu with ⟨_, rfl⟩ | ⟨_, hold⟩
    · exact (h.marked j r hr).next (h.wf j r hr) henabled
    · exact h.marked i u hold

theorem consistent_init : table.init.Consistent where
  wf := wf_init
  marked i r hr := by cases hr
  admitted sftpId := by simp [State.pending, table]

theorem consistent_of_run {events : List Event} (h : table.run events = some s) :
    s.Consistent := by
  refine table.run_invariant consistent_init ?_ h
  intro s event s' hs hstep
  exact ⟨step_wf hs.wf hstep, step_marked hs hstep, step_admitted hs.admitted hstep⟩

/-- The `i`-th record has a status. -/
def State.HasStatus (s : State) (i : ℕ) (status : TaskStatus) : Prop :=
  ∃ r, s.records[i]? = some r ∧ r.status = status

theorem hasStatus_unlist (p : ℕ → TransferRecord → Bool) {i : ℕ} {r : TransferRecord}
    (h : s.records[i]? = some r) : (s.unlist p).HasStatus i r.status := by
  refine ⟨if p i r then r.unlisted else r, ?_, ?_⟩
  · rw [State.unlist, List.getElem?_mapIdx, h]
    rfl
  · split_ifs <;> rfl

/-- A step keeps the status of a transfer that has ended. -/
theorem step_hasStatus {event : Event} {i : ℕ} {status : TaskStatus}
    (hstatus : isRemovableTransferState status = true) (h : s.HasStatus i status)
    (hstep : step s event = some s') : s'.HasStatus i status := by
  obtain ⟨u, hu, rfl⟩ := h
  cases event with
  | start request =>
    obtain ⟨rfl, _⟩ := startTransfer_eq_some hstep
    exact ⟨u, Pool.getElem?_add_left hu, rfl⟩
  | retry j request =>
    obtain ⟨r, hr, _, hstart⟩ := retry_eq_some hstep
    obtain ⟨rfl, _⟩ := startTransfer_eq_some hstart
    obtain ⟨v, hv, hstatus⟩ := (Pool.related_set (R := fun a b => b.status = a.status)
      (u := { r with retries := r.retries + 1 }) (fun _ _ _ => rfl) hr rfl).forth hu
    exact ⟨v, Pool.getElem?_add_left hv, hstatus⟩
  | load request status bytesDone bytesTotal =>
    obtain ⟨-, rfl⟩ := Option.ite_some_none_eq_some.mp hstep
    exact ⟨u, Pool.getElem?_add_left hu, rfl⟩
  | prune oldest =>
    obtain ⟨rfl, _⟩ := prune_eq_some hstep
    exact hasStatus_unlist _ hu
  | clear =>
    obtain rfl := Option.some.inj hstep
    exact hasStatus_unlist _ hu
  | act j action =>
    obtain ⟨r, hr, henabled, rfl⟩ := act_eq_some hstep
    by_cases hj : i = j
    · subst hj
      obtain rfl := Option.some.inj (hr.symm.trans hu)
      exact ⟨_, Pool.getElem?_set_self hr,
        TransferRecord.next_status_of_removable henabled hstatus⟩
    · refine ⟨u, ?_, rfl⟩
      rw [State.after, List.getElem?_set_ne fun h => hj h.symm]
      exact hu

/-- **The statuses of the transfers.**  In every run of the table, the status of each record
agrees with its flags and its counters, no queue of a session holds more records than it may,
and a transfer that has ended keeps its status however the run goes on. -/
theorem statuses_of_run {events more : List Event} (h : table.run events = some s)
    (hmore : table.runFrom s more = some s') :
    (∀ (i : ℕ) (r : TransferRecord), s.records[i]? = some r → r.Consistent) ∧
      (∀ sftpId, s.pending sftpId ≤ maxPendingTransfersPerSftp) ∧
      ∀ i status, isRemovableTransferState status = true → s.HasStatus i status →
        s'.HasStatus i status := by
  have hs := consistent_of_run h
  refine ⟨fun i r hr => (hs.marked i r hr).toConsistent, hs.admitted, fun i status hstatus hi => ?_⟩
  refine table.runFrom_invariant (I := fun s => s.HasStatus i status) ?_ hi hmore
  intro s event s' hkeep hstep
  exact step_hasStatus hstatus hkeep hstep

/-- The task of a transfer is paused and resumed while it copies, and completes; then the user
cancels it too late. -/
def completedRun : List Event :=
  [.start exampleRequest, .act 0 .release, .act 0 .pause, .act 0 .resume, .act 0 .acquire,
    .act 0 .markRunning, .act 0 (.progress 3), .act 0 (.touch (some 7)), .act 0 .pause,
    .act 0 (.progress 5), .act 0 .resume, .act 0 .lastPoll, .act 0 .verify, .act 0 .replace,
    .act 0 .markCompleted]

/-- The run of a transfer that completes. -/
theorem statuses_of_run_completedRun :
    ∃ s s', table.run completedRun = some s ∧ table.runFrom s [.clear] = some s' ∧
      s.HasStatus 0 .completed ∧ s'.HasStatus 0 .completed := by
  have hrun : (table.run completedRun).isSome = true := by decide +kernel
  obtain ⟨s, hs⟩ := Option.isSome_iff_exists.mp hrun
  have hfinal : (table.run completedRun).map (fun s => (s.records[0]?).map (·.status)) =
      some (some .completed) := by
    decide +kernel
  rw [hs, Option.map_some] at hfinal
  have hcompleted := Option.map_eq_some_iff.mp (Option.some.inj hfinal)
  have hmore : table.runFrom s [.clear] = some (s.unlist fun _ r => r.finished) := rfl
  exact ⟨s, _, hs, hmore, hcompleted, (statuses_of_run hs hmore).2.2 0 .completed rfl hcompleted⟩

end Table
end Transfer
end HelmSsh
