/-
# What the history file keeps

A persist writes the whole file from the table, so the file keeps a record only as long as
the table has it.  It does where four things hold (`Safe`): a persist waits for a load that
has taken the file over, no active transfer pushes a finished one out of the view, the
start of a transfer does not take back a record that was canceled meanwhile, and no
finished record is without the time that `prune_transfer_history` sorts by.

In such a run a finished record that was written to the file stays there until the user
removes it or a hundred finished records are no older: `durable_of_run`.  The other sibling
paths, `transfer_history_snapshot` and `clear_finished_transfer_history`, load before they
touch the file; a persist does not, and loses what it has not read: `unloaded_history_lost`.
-/

import HelmSsh.Transfer.History

namespace HelmSsh
namespace Transfer
namespace History

open Table (TaskStatus acceptsTransferActivity isRemovableTransferState maxTransferHistory)

/-! ### What is promised of a record -/

/-- The record is among them, up to the least number of workers. -/
def Listed (rs : List TransferRecord) (r : TransferRecord) : Prop :=
  ∃ q ∈ rs, q.settled = r.settled

/-- A hundred other finished records are no older. -/
def Crowded (rs : List TransferRecord) (r : TransferRecord) : Prop :=
  maxTransferHistory ≤ (rs.filter fun q => q.finished = true ∧ q.id ≠ r.id ∧
    r.info.transferTimestamp ≤ q.info.transferTimestamp).length

/-- The user takes the record out of the table: by its id, with all that are finished, or
by starting the transfer anew in its place. -/
def RemovedByUser (r : TransferRecord) (s : State) (e : Event) : Prop :=
  r.id ∈ ids s.transfers ∧ (e = .remove r.id ∨ e = .retryRemove r.id ∨ e = .clear)

/-- At this step the record may go. -/
def GivenUp (r : TransferRecord) (s : State) (e : Event) : Prop :=
  RemovedByUser r s e ∨ Crowded s.transfers r

instance (rs : List TransferRecord) (r : TransferRecord) : Decidable (Listed rs r) :=
  inferInstanceAs (Decidable (∃ q ∈ rs, _))

instance (rs : List TransferRecord) (r : TransferRecord) : Decidable (Crowded rs r) :=
  inferInstanceAs (Decidable (_ ≤ _))

instance (r : TransferRecord) (s : State) (e : Event) : Decidable (GivenUp r s e) :=
  inferInstanceAs (Decidable ((_ ∧ _) ∨ _))

/-- A finished record that is in the file at some time of the run is there at its end, or
might go at some step. -/
def Durable (file : HistoryFile) (as : List Event) : Prop :=
  ∀ pre post m s r, as = pre ++ post → (history file).run pre = some m →
    (history file).run as = some s → r ∈ m.file.transfers → r.finished = true →
      Listed s.file.transfers r ∨ (history file).Passes (GivenUp r) as

/-! ### When it is kept -/

/-- A finished record with a hundred others above it in the view has a hundred finished ones
that are no older. -/
def Undisplaced (rs : List TransferRecord) : Prop :=
  ∀ r ∈ rs, r.finished = true →
    maxTransferHistory ≤ (rs.filter fun q => r.rank ≤ q.rank ∧ q ≠ r).length → Crowded rs r

instance (rs : List TransferRecord) : Decidable (Undisplaced rs) :=
  inferInstanceAs (Decidable (∀ r ∈ rs, _))

/-- The steps at which nothing is lost. -/
def Safe (s : State) : Event → Prop
  | .persistView => s.loaded = true ∧ s.file.known = true ∧ Undisplaced s.transfers
  | .rollback id => ∀ r ∈ s.transfers, r.id = id → r.finished = false
  | .prune _ => ∀ r ∈ s.transfers, r.finished = true → r.info.updatedAt ≠ ""
  | _ => True

instance (s : State) (e : Event) : Decidable (Safe s e) := by
  induction e using Event.casesOn <;> dsimp only [Safe] <;> infer_instance

section Records

variable {q r : TransferRecord} {rs : List TransferRecord}

@[simp] theorem settled_settled (r : TransferRecord) : r.settled.settled = r.settled := by
  simp [TransferRecord.settled]

theorem info_eq (h : q.settled = r.settled) : q.info = r.info :=
  (congrArg TransferRecord.info h : q.settled.info = r.settled.info)

theorem id_eq (h : q.settled = r.settled) : q.id = r.id :=
  congrArg TransferInfo.transferId (info_eq h)

theorem finished_eq (h : q.settled = r.settled) : q.finished = r.finished :=
  congrArg (fun info : TransferInfo => isRemovableTransferState info.status) (info_eq h)

theorem Crowded.congr (h : q.settled = r.settled) (hq : Crowded rs q) : Crowded rs r := by
  unfold Crowded at hq ⊢
  rwa [← id_eq h, ← info_eq h]

theorem not_accepts_of_finished (h : r.finished = true) :
    acceptsTransferActivity r.info.status = false := by
  unfold TransferRecord.finished at h
  revert h
  cases r.info.status <;> decide

theorem normalizeLoaded_of_finished (h : r.finished = true) (now : String) :
    r.normalizeLoaded now = r := by
  rw [TransferRecord.normalizeLoaded, not_accepts_of_finished h]
  rfl

@[simp] theorem id_normalizeLoaded (now : String) (r : TransferRecord) :
    (r.normalizeLoaded now).settled.id = r.id := by
  unfold TransferRecord.normalizeLoaded
  split_ifs <;> rfl

theorem Listed.mono {rs' : List TransferRecord} (h : Listed rs r) (hsub : rs ⊆ rs') :
    Listed rs' r := by
  obtain ⟨q, hq, heq⟩ := h
  exact ⟨q, hsub hq, heq⟩

theorem Listed.id_mem (h : Listed rs r) : r.id ∈ ids rs := by
  obtain ⟨q, hq, heq⟩ := h
  rw [← id_eq heq]
  exact List.mem_map_of_mem hq

theorem eq_of_id_eq (hnodup : (ids rs).Nodup) (hq : q ∈ rs) (hr : r ∈ rs) (h : q.id = r.id) :
    q = r :=
  List.inj_on_of_nodup_map hnodup hq hr h

/-! ### The view, the prune and the load -/

/-- **The view keeps a finished record, or a hundred are no older.** -/
theorem Listed.view (h : Listed rs r) (hfinished : r.finished = true)
    (hundisplaced : Undisplaced rs) : Listed (view rs) r ∨ Crowded rs r := by
  obtain ⟨q, hq, heq⟩ := h
  by_cases hin : q ∈ Newest.newest TransferRecord.rank maxTransferHistory rs
  · exact .inl ⟨q.settled, List.mem_map_of_mem hin, by rw [settled_settled, heq]⟩
  · have habove := Newest.length_above_of_not_mem_newest TransferRecord.rank hq hin
    have hqfinished : q.finished = true := (finished_eq heq).trans hfinished
    exact .inr ((hundisplaced q hq hqfinished habove).congr heq)

theorem listed_of_mem_view (h : r ∈ view rs) : Listed rs r := by
  obtain ⟨q, hq, rfl⟩ := List.mem_map.mp h
  exact ⟨q, Newest.mem_of_mem_newest _ hq, (settled_settled q).symm⟩

theorem nodup_view (h : (ids rs).Nodup) : (ids (view rs)).Nodup := by
  have hids : ids (view rs) =
      ids (Newest.newest TransferRecord.rank maxTransferHistory rs) := by
    unfold ids view
    rw [List.map_map]
    rfl
  rw [hids]
  obtain ⟨l, hperm, hsub⟩ := Newest.newest_subperm TransferRecord.rank maxTransferHistory rs
  exact (hperm.map TransferRecord.id).nodup_iff.mp (h.sublist (hsub.map _))

/-- What a prune removes has a hundred finished records that are no older. -/
theorem crowded_of_pruned {order : List TransferRecord} (hnodup : (ids rs).Nodup)
    (hperm : order.Perm (rs.filter TransferRecord.finished))
    (hsorted : order.Pairwise fun a b => a.info.updatedAt ≤ b.info.updatedAt)
    (htimes : ∀ r ∈ rs, r.finished = true → r.info.updatedAt ≠ "")
    (hr : r ∈ order.take (pruneCount rs)) : Crowded rs r := by
  have hlen : order.length = (rs.filter TransferRecord.finished).length := hperm.length_eq
  have hmem : ∀ q ∈ order, q ∈ rs ∧ q.finished = true := fun q hq =>
    List.mem_filter.mp (hperm.subset hq)
  have hcount : 0 < pruneCount rs := by
    rw [Nat.pos_iff_ne_zero]
    intro h
    rw [h, List.take_zero] at hr
    cases hr
  have hrest : (order.drop (pruneCount rs)).length = maxTransferHistory := by
    rw [List.length_drop, hlen]
    unfold pruneCount at hcount ⊢
    omega
  have hordered : (ids order).Nodup :=
    (hperm.map TransferRecord.id).nodup_iff.mpr (hnodup.sublist (List.filter_sublist.map _))
  have htimestamp : ∀ q ∈ order, q.info.transferTimestamp = q.info.updatedAt := fun q hq =>
    if_neg (htimes q (hmem q hq).1 (hmem q hq).2)
  have hall : ∀ q ∈ order.drop (pruneCount rs), decide (q.finished = true ∧ q.id ≠ r.id ∧
      r.info.transferTimestamp ≤ q.info.transferTimestamp) = true := by
    intro q hq
    refine decide_eq_true ⟨(hmem q (List.mem_of_mem_drop hq)).2, ?_, ?_⟩
    · rw [← List.take_append_drop (pruneCount rs) order, ids, List.map_append] at hordered
      exact fun h => (List.disjoint_of_nodup_append hordered) (List.mem_map_of_mem hr)
        (h ▸ List.mem_map_of_mem hq)
    · rw [htimestamp q (List.mem_of_mem_drop hq), htimestamp r (List.mem_of_mem_take hr)]
      rw [← List.take_append_drop (pruneCount rs) order, List.pairwise_append] at hsorted
      exact hsorted.2.2 r hr q hq
  have hsub : (order.drop (pruneCount rs)).Subperm rs :=
    ((List.drop_sublist _ _).subperm.trans hperm.subperm).trans List.filter_sublist.subperm
  have hfilter := hsub.filter fun q => decide (q.finished = true ∧ q.id ≠ r.id ∧
      r.info.transferTimestamp ≤ q.info.transferTimestamp)
  rw [List.filter_eq_self.mpr hall] at hfilter
  exact hrest.symm.le.trans hfilter.length_le

theorem subset_orInsert (rs : List TransferRecord) (r : TransferRecord) : rs ⊆ orInsert rs r := by
  unfold orInsert
  split_ifs
  · exact List.Subset.refl rs
  · exact List.subset_append_left rs [r]

theorem subset_insertLoaded (now : String) (rs loaded : List TransferRecord) :
    rs ⊆ insertLoaded now rs loaded := by
  unfold insertLoaded
  induction loaded generalizing rs with
  | nil => exact List.Subset.refl rs
  | cons r loaded ih => exact List.Subset.trans (subset_orInsert rs _) (ih _)

/-- The ids of an entry that is new are added, and no id twice. -/
theorem nodup_orInsert (h : (ids rs).Nodup) (r : TransferRecord) :
    (ids (orInsert rs r)).Nodup := by
  unfold orInsert
  split_ifs with hid
  · exact h
  · rw [ids, List.map_append]
    refine List.nodup_append'.mpr ⟨h, List.nodup_singleton _, ?_⟩
    rw [List.map_singleton, List.disjoint_singleton]
    exact hid

theorem nodup_insertLoaded (now : String) {rs : List TransferRecord}
    (loaded : List TransferRecord) (h : (ids rs).Nodup) :
    (ids (insertLoaded now rs loaded)).Nodup := by
  unfold insertLoaded
  induction loaded generalizing rs with
  | nil => exact h
  | cons r loaded ih => exact ih (nodup_orInsert h _)

theorem id_mem_orInsert {id : String} (h : id ∈ ids (orInsert rs r)) : id ∈ ids rs ∨ id = r.id := by
  unfold orInsert at h
  split_ifs at h
  · exact .inl h
  · rw [ids, List.map_append, List.mem_append, List.map_singleton, List.mem_singleton] at h
    exact h

theorem id_mem_insertLoaded {now id : String} {rs loaded : List TransferRecord}
    (h : id ∈ ids (insertLoaded now rs loaded)) : id ∈ ids rs ∨ id ∈ ids loaded := by
  unfold insertLoaded at h
  induction loaded generalizing rs with
  | nil => exact .inl h
  | cons r loaded ih =>
    rcases ih h with h | h
    · rcases id_mem_orInsert h with h | h
      · exact .inl h
      · rw [id_normalizeLoaded] at h
        exact .inr (h ▸ List.mem_cons_self)
    · exact .inr (List.mem_cons_of_mem _ h)

/-- **The load takes over each finished record of the file**, when no id is twice in the file
and none is in the table. -/
theorem listed_insertLoaded (now : String) {rs loaded : List TransferRecord}
    (hnodup : (ids loaded).Nodup) (hapart : ∀ id ∈ ids loaded, id ∉ ids rs)
    (hr : Listed loaded r) (hfinished : r.finished = true) :
    Listed (insertLoaded now rs loaded) r := by
  obtain ⟨q, hq, heq⟩ := hr
  unfold insertLoaded
  induction loaded generalizing rs with
  | nil => cases hq
  | cons a loaded ih =>
    rw [ids, List.map_cons, List.nodup_cons] at hnodup
    rw [List.foldl_cons]
    have ha : a.id ∉ ids rs := hapart a.id List.mem_cons_self
    rcases List.mem_cons.mp hq with rfl | hq
    · have hqfinished : q.finished = true := (finished_eq heq).trans hfinished
      refine Listed.mono ⟨q.settled, ?_, by rw [settled_settled, heq]⟩
        (subset_insertLoaded now _ loaded)
      rw [orInsert, id_normalizeLoaded, if_neg ha, normalizeLoaded_of_finished hqfinished]
      exact List.mem_append_right _ List.mem_cons_self
    · refine ih hnodup.2 (fun id hid hmem => ?_) hq
      rcases id_mem_orInsert hmem with h | h
      · exact hapart id (List.mem_cons_of_mem _ hid) h
      · rw [id_normalizeLoaded] at h
        exact hnodup.1 (h ▸ hid)

end Records

/-! ### The runs -/

/-- What holds of the table, the file and the load in every run whose steps are safe. -/
structure Inv (s : State) : Prop where
  nodup : (ids s.transfers).Nodup
  fileNodup : (ids s.file.transfers).Nodup
  viewNodup : ∀ v, s.writing = some v → (ids v).Nodup
  /-- Before the load has taken over, nothing is written, so that it has read the file as it is. -/
  unloaded : s.loaded = false → s.writing = none
  loading : s.load ≠ .idle → s.loaded = false
  inserting : ∀ rs, s.load = .inserting rs → s.file.transfers = rs ∧ s.file.known = true
  quarantining : s.load = .quarantining → s.file = .invalid
  writing : s.writing ≠ none → s.file.known = true
  /-- Till then the table has only transfers of this program. -/
  apart : s.loaded = false → ∀ id ∈ ids s.file.transfers, id ∉ ids s.transfers
  /-- After it, the table has had each transfer of the file. -/
  seen : s.loaded = true → s.file.known = true → ids s.file.transfers ⊆ s.seen
  seenTable : ids s.transfers ⊆ s.seen
  seenView : ∀ v, s.writing = some v → ids v ⊆ s.seen

namespace Inv

theorem init {file : HistoryFile} (hfile : (ids file.transfers).Nodup) :
    Inv (history file).init where
  nodup := List.nodup_nil
  fileNodup := hfile
  viewNodup _ h := nomatch h
  unloaded _ := rfl
  loading _ := rfl
  inserting _ h := nomatch h
  quarantining h := nomatch h
  writing h := absurd rfl h
  apart _ _ _ := List.not_mem_nil
  seen h := nomatch h
  seenTable := List.nil_subset _
  seenView _ h := nomatch h

variable {s : State}

/-- The table changes: it keeps its ids apart, and takes none that it has not been told of. -/
theorem withTransfers (h : Inv s) {rs : List TransferRecord} (hnodup : (ids rs).Nodup)
    (hsub : ids rs ⊆ ids s.transfers) (starting : List String) :
    Inv { s with transfers := rs, starting := starting } :=
  { h with
    nodup := hnodup
    apart := fun hloaded id hid hmem => h.apart hloaded id hid (hsub hmem)
    seenTable := List.Subset.trans hsub h.seenTable }

theorem filter (h : Inv s) (p : TransferRecord → Bool) (starting : List String) :
    Inv { s with transfers := s.transfers.filter p, starting := starting } :=
  h.withTransfers (h.nodup.sublist (List.filter_sublist.map _))
    (List.map_subset _ (List.filter_subset_self _)) starting

theorem start (h : Inv s) {record : TransferRecord} (hnew : s.Enabled (.start record)) :
    Inv (s.next (.start record)) := by
  obtain ⟨-, -, htable, hfile⟩ := hnew
  have hids : ids (s.transfers ++ [record]) = ids s.transfers ++ [record.id] := List.map_append
  refine { h with
    nodup := ?_
    apart := fun hloaded id hid hmem => ?_
    seen := fun hloaded hknown => List.Subset.trans (h.seen hloaded hknown)
      (List.subset_append_left _ _)
    seenTable := ?_
    seenView := fun v hv => List.Subset.trans (h.seenView v hv) (List.subset_append_left _ _) }
  · change (ids (s.transfers ++ [record])).Nodup
    rw [hids]
    refine List.nodup_append'.mpr ⟨h.nodup, List.nodup_singleton _, ?_⟩
    rw [List.disjoint_singleton]
    exact htable
  · change id ∈ ids (s.transfers ++ [record]) at hmem
    rw [hids, List.mem_append, List.mem_singleton] at hmem
    rcases hmem with hmem | rfl
    · exact h.apart hloaded id hid hmem
    · exact hfile hid
  · change ids (s.transfers ++ [record]) ⊆ s.seen ++ [record.id]
    rw [hids]
    intro id hid
    rcases List.mem_append.mp hid with hid | hid
    · exact List.mem_append_left _ (h.seenTable hid)
    · exact List.mem_append_right _ hid

theorem insert (h : Inv s) {rs : List TransferRecord} (hrs : s.load = .inserting rs)
    (now : String) :
    Inv { s with
      transfers := insertLoaded now s.transfers rs
      seen := s.seen ++ ids rs
      load := .idle
      loaded := true } := by
  have hloading : s.loaded = false := h.loading (by rw [hrs]; nofun)
  have hnone : s.writing = none := h.unloaded hloading
  obtain ⟨hfile, -⟩ := h.inserting rs hrs
  refine { h with
    nodup := nodup_insertLoaded now rs h.nodup
    unloaded := nofun
    loading := fun hne => absurd rfl hne
    inserting := nofun
    quarantining := nofun
    apart := nofun
    seen := fun _ _ => ?_
    seenTable := fun id hid => ?_
    seenView := fun v hv => absurd (hnone.symm.trans hv) nofun }
  · exact List.subset_append_of_subset_right _ (by rw [hfile]; exact List.Subset.refl _)
  · rcases id_mem_insertLoaded hid with hid | hid
    · exact List.mem_append_left _ (h.seenTable hid)
    · exact List.mem_append_right _ hid

theorem read (h : Inv s) (hidle : s.loaded = false ∧ s.load = .idle) : Inv s.read := by
  have hnone := h.unloaded hidle.1
  unfold State.read
  split
  · next hfile =>
    refine { h with
      unloaded := fun _ => hnone, loading := fun hne => absurd hidle.2 hne, apart := nofun
      seen := fun _ _ => ?_ }
    dsimp only
    rw [hfile]
    exact List.nil_subset _
  · next hfile =>
    exact { h with
      loading := fun _ => hidle.1, inserting := nofun, quarantining := fun _ => hfile }
  · next snapshot hfile =>
    split_ifs with hversion
    · refine { h with
        unloaded := fun _ => hnone, loading := fun hne => absurd hidle.2 hne, apart := nofun
        seen := fun _ hknown => ?_ }
      dsimp only at hknown
      rw [hfile] at hknown
      simp only [HistoryFile.known, Bool.or_eq_true, beq_iff_eq] at hknown
      exact absurd hknown (not_or.mpr hversion)
    · refine { h with
        loading := fun _ => hidle.1, quarantining := nofun, inserting := fun rs hrs => ?_ }
      obtain rfl := LoadPhase.inserting.inj hrs
      dsimp only
      rw [hfile]
      refine ⟨rfl, ?_⟩
      rw [HistoryFile.known, Bool.or_eq_true, beq_iff_eq, beq_iff_eq]
      by_contra hnot
      exact hversion (not_or.mp hnot)

theorem view_seen (h : Inv s) : ids (view s.transfers) ⊆ s.seen := by
  intro id hid
  obtain ⟨r, hr, rfl⟩ := List.mem_map.mp hid
  exact h.seenTable (listed_of_mem_view hr).id_mem

theorem written (h : Inv s) {v : List TransferRecord} (hv : s.writing = some v) :
    Inv { s with file := .snapshot ⟨transferHistoryVersion, v⟩, writing := none } := by
  have hloaded : s.loaded = true := by
    by_contra hnot
    rw [h.unloaded (Bool.not_eq_true _ ▸ hnot)] at hv
    cases hv
  have hidle : s.load = .idle := by
    by_contra hne
    exact absurd ((h.loading hne).symm.trans hloaded) nofun
  exact { h with
    fileNodup := h.viewNodup v hv
    viewNodup := nofun
    unloaded := fun _ => rfl
    inserting := fun rs hrs => absurd (hidle.symm.trans hrs) nofun
    quarantining := fun hq => absurd (hidle.symm.trans hq) nofun
    writing := fun hne => absurd rfl hne
    apart := fun hnot => absurd (hnot.symm.trans hloaded) nofun
    seen := fun _ _ => h.seenView v hv
    seenView := nofun }

/-- **A safe step keeps the invariant.** -/
theorem next (h : Inv s) {e : Event} (hen : s.Enabled e) (hsafe : Safe s e) :
    Inv (s.next e) := by
  cases e with
  | start record => exact h.start hen
  | started id => exact { h with }
  | rollback id => exact h.filter _ _
  | mark id status error now =>
    have hids : ids (s.transfers.map fun r => if r.id = id then r.mark status error now else r) =
        ids s.transfers := by
      rw [ids, List.map_map]
      refine List.map_congr_left fun r _ => ?_
      rw [Function.comp_apply]
      split_ifs <;> rfl
    exact h.withTransfers (by rw [hids]; exact h.nodup)
      (by rw [hids]; exact List.Subset.refl _) s.starting
  | remove id => exact h.filter _ s.starting
  | retryRemove id => exact h.filter _ s.starting
  | clear => exact h.filter _ s.starting
  | prune order => exact h.filter _ s.starting
  | persistView =>
    obtain ⟨hloaded, hknown, -⟩ := hsafe
    exact { h with
      viewNodup := fun v hv => Option.some.inj hv ▸ nodup_view h.nodup
      unloaded := fun hnot => absurd (hnot.symm.trans hloaded) nofun
      writing := fun _ => hknown
      seenView := fun v hv => Option.some.inj hv ▸ h.view_seen }
  | persistWrite ok =>
    obtain ⟨v, hv⟩ := Option.isSome_iff_exists.mp hen
    cases ok with
    | true =>
      rw [State.next, hv]
      exact h.written hv
    | false =>
      exact { h with
        viewNodup := nofun, unloaded := fun _ => rfl, writing := fun hne => absurd rfl hne
        seenView := nofun }
  | loadRead ok =>
    cases ok with
    | true => exact h.read hen
    | false => exact h
  | quarantine ok =>
    have hfile := h.quarantining hen
    have hnone := h.unloaded (h.loading (by rw [show s.load = .quarantining from hen]; nofun))
    have habsent : ∀ file : HistoryFile, file.transfers = [] →
        Inv { s with file := file, load := .idle, loaded := true } := by
      intro file hnil
      exact { h with
        fileNodup := by rw [hnil]; exact List.nodup_nil
        unloaded := nofun
        loading := fun hne => absurd rfl hne
        inserting := nofun
        quarantining := nofun
        writing := fun hne => absurd hnone hne
        apart := nofun
        seen := fun _ _ => by rw [hnil]; exact List.nil_subset _ }
    cases ok with
    | true => exact habsent .absent rfl
    | false => exact habsent s.file (by rw [hfile]; rfl)
  | loadInsert now =>
    rw [State.next, State.takeOver]
    split
    · next rs hrs => exact h.insert hrs now
    · exact h
  | restart => exact init h.fileNodup

end Inv

section Kept

variable {s : State} {e : Event} {r : TransferRecord}

theorem Listed.filter {rs : List TransferRecord} (h : Listed rs r) (p : TransferRecord → Bool)
    (hp : ∀ q ∈ rs, q.settled = r.settled → p q = true) : Listed (rs.filter p) r := by
  obtain ⟨q, hq, heq⟩ := h
  exact ⟨q, List.mem_filter.mpr ⟨hq, hp q hq heq⟩, heq⟩

theorem Listed.removeId {rs : List TransferRecord} (h : Listed rs r) {id : String}
    (hid : id ≠ r.id) : Listed (removeId rs id) r := by
  refine h.filter _ fun q _ heq => decide_eq_true ?_
  rw [id_eq heq]
  exact hid.symm

/-- The write to an active record leaves the finished ones. -/
theorem Listed.mark (h : Listed s.transfers r) (hnodup : (ids s.transfers).Nodup)
    (hfinished : r.finished = true) {id : String} {status : TaskStatus} {error : Option String}
    {now : String} (hen : s.Enabled (.mark id status error now)) :
    Listed (s.transfers.map fun r => if r.id = id then r.mark status error now else r) r := by
  obtain ⟨q, hq, heq⟩ := h
  obtain ⟨a, ha, hactive⟩ := (Option.any_eq_true _ _).mp hen
  have hmem : a ∈ s.transfers := List.mem_of_find?_eq_some ha
  have hid : a.id = id := by
    have := List.find?_some ha
    rwa [decide_eq_true_eq] at this
  have hne : q.id ≠ id := by
    intro hqid
    rw [eq_of_id_eq hnodup hmem hq (hid.trans hqid.symm)] at hactive
    have hqfinished : q.finished = true := (finished_eq heq).trans hfinished
    exact absurd (hactive.symm.trans (not_accepts_of_finished hqfinished)) nofun
  exact ⟨q, List.mem_map.mpr ⟨q, hq, if_neg hne⟩, heq⟩

/-- **A safe step leaves a finished record in the table**, unless the record is given up at
that step or the program is started again. -/
theorem Listed.next (h : Listed s.transfers r) (hinv : Inv s) (hfinished : r.finished = true)
    (hen : s.Enabled e) (hsafe : Safe s e) (hgiven : ¬ GivenUp r s e) (hne : e ≠ .restart) :
    Listed (s.next e).transfers r := by
  have huser : ¬ RemovedByUser r s e := fun hu => hgiven (.inl hu)
  cases e with
  | start record => exact h.mono (List.subset_append_left _ _)
  | started id => exact h
  | rollback id =>
    refine h.removeId fun hid => ?_
    obtain ⟨q, hq, heq⟩ := h
    have hnot : q.finished = false := hsafe q hq ((id_eq heq).trans hid.symm)
    exact absurd (hnot.symm.trans ((finished_eq heq).trans hfinished)) nofun
  | mark id status error now => exact h.mark hinv.nodup hfinished hen
  | remove id =>
    exact h.removeId fun hid => huser ⟨h.id_mem, .inl (by rw [hid])⟩
  | retryRemove id =>
    exact h.removeId fun hid => huser ⟨h.id_mem, .inr (.inl (by rw [hid]))⟩
  | clear => exact absurd ⟨h.id_mem, .inr (.inr rfl)⟩ huser
  | prune order =>
    refine h.filter _ fun q hq heq => decide_eq_true fun hmem => ?_
    obtain ⟨a, ha, haid⟩ := List.mem_map.mp hmem
    have hain : a ∈ s.transfers :=
      (List.mem_filter.mp (hen.1.subset (List.mem_of_mem_take ha))).1
    obtain rfl := eq_of_id_eq hinv.nodup hain hq haid
    exact hgiven (.inr ((crowded_of_pruned hinv.nodup hen.1 hen.2 hsafe ha).congr heq))
  | persistView => exact h
  | persistWrite ok => exact h
  | loadRead ok =>
    cases ok with
    | true =>
      rw [State.next, if_pos rfl, State.read]
      split
      · exact h
      · exact h
      · split_ifs
        · exact h
        · exact h
    | false => exact h
  | quarantine ok => exact h
  | loadInsert now =>
    rw [State.next, State.takeOver]
    split
    · exact h.mono (subset_insertLoaded now _ _)
    · exact h
  | restart => exact absurd rfl hne

/-- A record that the file has keeps its place: in the file, in the table once the load has
taken over, and in the view that is about to be written. -/
structure Held (s : State) (r : TransferRecord) : Prop where
  file : Listed s.file.transfers r
  table : s.loaded = true → s.file.known = true → Listed s.transfers r
  view : ∀ v, s.writing = some v → Listed v r

theorem Held.file_ne (h : Held s r) {file : HistoryFile} (hnil : file.transfers = []) :
    s.file ≠ file := by
  intro heq
  obtain ⟨q, hq, -⟩ := h.file
  rw [heq, hnil] at hq
  cases hq

/-- The load reads the file: it takes the record along, or leaves a file alone that it does
not know. -/
theorem Held.read (h : Held s r) (hidle : s.loaded = false) : Held s.read r := by
  have hview : ∀ v, s.writing = some v → Listed v r := h.view
  unfold State.read
  split
  · next hfile => exact absurd hfile (h.file_ne rfl)
  · next hfile => exact absurd hfile (h.file_ne rfl)
  · next snapshot hfile =>
    split_ifs with hversion
    · refine ⟨h.file, fun _ hknown => ?_, hview⟩
      dsimp only at hknown
      rw [hfile] at hknown
      simp only [HistoryFile.known, Bool.or_eq_true, beq_iff_eq] at hknown
      exact absurd hknown (not_or.mpr hversion)
    · exact ⟨h.file, fun hloaded => absurd (hidle.symm.trans hloaded) nofun, hview⟩

/-- **A safe step keeps the place of a finished record**, unless the record is given up at
that step. -/
theorem Held.next (h : Held s r) (hinv : Inv s) (hfinished : r.finished = true)
    (hen : s.Enabled e) (hsafe : Safe s e) (hgiven : ¬ GivenUp r s e) : Held (s.next e) r := by
  by_cases hrestart : e = .restart
  · subst hrestart
    exact ⟨h.file, nofun, nofun⟩
  have hlisted : s.loaded = true → s.file.known = true → Listed (s.next e).transfers r :=
    fun hloaded hknown =>
      (h.table hloaded hknown).next hinv hfinished hen hsafe hgiven hrestart
  cases e with
  | start record => exact ⟨h.file, hlisted, h.view⟩
  | started id => exact ⟨h.file, hlisted, h.view⟩
  | rollback id => exact ⟨h.file, hlisted, h.view⟩
  | mark id status error now => exact ⟨h.file, hlisted, h.view⟩
  | remove id => exact ⟨h.file, hlisted, h.view⟩
  | retryRemove id => exact ⟨h.file, hlisted, h.view⟩
  | clear => exact ⟨h.file, hlisted, h.view⟩
  | prune order => exact ⟨h.file, hlisted, h.view⟩
  | persistView =>
    obtain ⟨hloaded, hknown, hundisplaced⟩ := hsafe
    refine ⟨h.file, hlisted, fun v hv => ?_⟩
    obtain rfl := Option.some.inj hv
    refine ((h.table hloaded hknown).view hfinished hundisplaced).resolve_right fun hc => ?_
    exact hgiven (.inr hc)
  | persistWrite ok =>
    obtain ⟨v, hv⟩ := Option.isSome_iff_exists.mp hen
    have hknown : s.file.known = true := hinv.writing (by rw [hv]; nofun)
    refine ⟨?_, fun hloaded _ => hlisted hloaded hknown, nofun⟩
    cases ok with
    | true =>
      rw [State.next, if_pos rfl, hv]
      exact h.view v hv
    | false => exact h.file
  | loadRead ok =>
    cases ok with
    | true => exact h.read hen.1
    | false => exact h
  | quarantine ok => exact absurd (hinv.quarantining hen) (h.file_ne rfl)
  | loadInsert now =>
    rw [State.next, State.takeOver]
    split
    · next rs hrs =>
      obtain ⟨hfile, -⟩ := hinv.inserting rs hrs
      have hloading : s.loaded = false := hinv.loading (by rw [hrs]; nofun)
      refine ⟨h.file, fun _ _ => ?_, h.view⟩
      refine listed_insertLoaded now (hfile ▸ hinv.fileNodup) ?_ (hfile ▸ h.file) hfinished
      exact fun id hid => hinv.apart hloading id (hfile ▸ hid)
    · exact h
  | restart => exact absurd rfl hrestart

/-- The file after a step is the file before it, or the view that was written, or nothing. -/
theorem mem_file_next (hr : r ∈ (s.next e).file.transfers) :
    r ∈ s.file.transfers ∨ ∃ v, e = .persistWrite true ∧ s.writing.getD [] = v ∧ r ∈ v := by
  cases e with
  | persistWrite ok =>
    cases ok with
    | true => exact .inr ⟨_, rfl, rfl, hr⟩
    | false => exact .inl hr
  | loadRead ok =>
    cases ok with
    | true =>
      refine .inl ?_
      rw [State.next, if_pos rfl, State.read] at hr
      split at hr
      · exact hr
      · exact hr
      · split_ifs at hr
        · exact hr
        · exact hr
    | false => exact .inl hr
  | quarantine ok =>
    cases ok with
    | true => cases hr
    | false => exact .inl hr
  | loadInsert now =>
    refine .inl ?_
    rw [State.next, State.takeOver] at hr
    split at hr
    · exact hr
    · exact hr
  | start record => exact .inl hr
  | started id => exact .inl hr
  | rollback id => exact .inl hr
  | mark id status error now => exact .inl hr
  | remove id => exact .inl hr
  | retryRemove id => exact .inl hr
  | clear => exact .inl hr
  | prune order => exact .inl hr
  | persistView => exact .inl hr
  | restart => exact .inl hr

/-- A view is the newest of the table, or was taken before. -/
theorem writing_next {v : List TransferRecord} (hv : (s.next e).writing = some v) :
    e ≠ .restart ∧ (s.writing = some v ∨ view s.transfers = v) := by
  cases e with
  | persistView => exact ⟨nofun, .inr (Option.some.inj hv)⟩
  | persistWrite ok => cases hv
  | loadRead ok =>
    refine ⟨nofun, .inl ?_⟩
    cases ok with
    | true =>
      rw [State.next, if_pos rfl, State.read] at hv
      split at hv
      · exact hv
      · exact hv
      · split_ifs at hv
        · exact hv
        · exact hv
    | false => exact hv
  | loadInsert now =>
    refine ⟨nofun, .inl ?_⟩
    rw [State.next, State.takeOver] at hv
    split at hv
    · exact hv
    · exact hv
  | quarantine ok => exact ⟨nofun, .inl hv⟩
  | start record => exact ⟨nofun, .inl hv⟩
  | started id => exact ⟨nofun, .inl hv⟩
  | rollback id => exact ⟨nofun, .inl hv⟩
  | mark id status error now => exact ⟨nofun, .inl hv⟩
  | remove id => exact ⟨nofun, .inl hv⟩
  | retryRemove id => exact ⟨nofun, .inl hv⟩
  | clear => exact ⟨nofun, .inl hv⟩
  | prune order => exact ⟨nofun, .inl hv⟩
  | restart => cases hv

end Kept

/-- The record was in the file at some time of the run. -/
def Written (file : HistoryFile) (as : List Event) (r : TransferRecord) : Prop :=
  ∃ pre post m, as = pre ++ post ∧ (history file).run pre = some m ∧ r ∈ m.file.transfers

/-- What a run whose steps are safe does to the finished records: those of a view are in the
table, and those of the file keep their place. -/
structure Followed (file : HistoryFile) (as : List Event) (s : State) : Prop where
  inv : Inv s
  viewed : ∀ r v, r.finished = true → s.writing = some v → Listed v r →
    (history file).Passes (GivenUp r) as ∨ Listed s.transfers r
  kept : ∀ r, r.finished = true → Written file as r →
    (history file).Passes (GivenUp r) as ∨ Held s r

variable {file : HistoryFile} {as : List Event} {s s' : State} {e : Event}

/-- Before the first step, the file is as it was found. -/
theorem Followed.init (hfile : (ids file.transfers).Nodup) :
    Followed file [] (history file).init where
  inv := .init hfile
  viewed _ _ _ hv := nomatch hv
  kept := by
    rintro r - ⟨pre, post, m, has, hrun, hr⟩
    obtain ⟨rfl, rfl⟩ := List.append_eq_nil_iff.mp has.symm
    obtain rfl := Option.some.inj hrun
    exact .inr ⟨⟨r, hr, rfl⟩, nofun, nofun⟩

/-- A record of the file after one more step was there before, or is there now. -/
theorem Written.of_append {r : TransferRecord} (h : Written file (as ++ [e]) r)
    (hrun : (history file).run (as ++ [e]) = some s') :
    Written file as r ∨ r ∈ s'.file.transfers := by
  obtain ⟨pre, post, m, has, hpre, hr⟩ := h
  rcases List.eq_nil_or_concat post with rfl | ⟨post, a, rfl⟩
  · rw [List.append_nil] at has
    rw [← has, hrun] at hpre
    obtain rfl := Option.some.inj hpre
    exact .inr hr
  · rw [List.concat_eq_append, ← List.append_assoc] at has
    exact .inl ⟨pre, post, m, (List.append_inj' has rfl).1, hpre, hr⟩

theorem Followed.next (h : Followed file as s) (hrun : (history file).run as = some s)
    (hsafe : Safe s e) (hstep : (history file).step s e = some s') :
    Followed file (as ++ [e]) s' := by
  have hrun' : (history file).run (as ++ [e]) = some s' := by
    rw [Machine.run, Machine.runFrom_append, ← Machine.run, hrun]
    exact (Machine.runFrom_cons _ _ _ _).trans (by rw [hstep]; rfl)
  obtain ⟨hen, rfl⟩ := Machine.guarded_step.mp hstep
  have hpast : ∀ {r}, (history file).Passes (GivenUp r) as →
      (history file).Passes (GivenUp r) (as ++ [e]) := fun hp => hp.append [e]
  have hnow : ∀ {r}, GivenUp r s e → (history file).Passes (GivenUp r) (as ++ [e]) :=
    fun hg => Machine.passesFrom_last hrun hg
  refine ⟨h.inv.next hen hsafe, fun r v hfinished hv hlisted => ?_, fun r hfinished hw => ?_⟩
  · obtain ⟨hne, hview⟩ := writing_next hv
    have htable : (history file).Passes (GivenUp r) as ∨ Listed s.transfers r := by
      rcases hview with hview | rfl
      · exact h.viewed r v hfinished hview hlisted
      · obtain ⟨q, hq, heq⟩ := hlisted
        obtain ⟨a, ha, haq⟩ := listed_of_mem_view hq
        exact .inr ⟨a, ha, haq.trans heq⟩
    rcases htable with hp | htable
    · exact .inl (hpast hp)
    · by_cases hgiven : GivenUp r s e
      · exact .inl (hnow hgiven)
      · exact .inr (htable.next h.inv hfinished hen hsafe hgiven hne)
  · by_cases hgiven : GivenUp r s e
    · exact .inl (hnow hgiven)
    have hbefore : Written file as r →
        (history file).Passes (GivenUp r) (as ++ [e]) ∨ Held (s.next e) r := by
      intro hw
      rcases h.kept r hfinished hw with hp | hheld
      · exact .inl (hpast hp)
      · exact .inr (hheld.next h.inv hfinished hen hsafe hgiven)
    rcases hw.of_append hrun' with hw | hr
    · exact hbefore hw
    · rcases mem_file_next hr with hr | ⟨v, rfl, hv, hrv⟩
      · exact hbefore ⟨as, [], s, (List.append_nil as).symm, hrun, hr⟩
      · obtain ⟨w, hw⟩ := Option.isSome_iff_exists.mp hen
        rw [hw, Option.getD_some] at hv
        subst hv
        rcases h.viewed r w hfinished hw ⟨r, hrv, rfl⟩ with hp | htable
        · exact .inl (hpast hp)
        · exact .inr ⟨⟨r, hr, rfl⟩, fun _ _ => htable, (by intros; contradiction)⟩

/-- A write replaces only what the program has had in its table since it was started. -/
def Informed (file : HistoryFile) (as : List Event) : Prop :=
  ∀ pre ok post m, as = pre ++ .persistWrite ok :: post → (history file).run pre = some m →
    m.writing ≠ none → ids m.file.transfers ⊆ m.seen

theorem meets_before {pre post : List Event} (hok : (history file).Meets Safe (pre ++ post))
    (hrun : (history file).run pre = some s) : (history file).Meets Safe pre :=
  (Machine.meetsFrom_append hok hrun).1

/-- **The history is durable in every run whose steps are safe.**  A finished record that
was in the file at some time is there at the end of the run, unless the user has removed it
or a hundred finished records were no older; and a write replaces only records that the
program has had in its table. -/
theorem durable_of_run (hfile : (ids file.transfers).Nodup)
    (hok : (history file).Meets Safe as) : Durable file as ∧ Informed file as := by
  have hfollow : ∀ bs s, (history file).Meets Safe bs → (history file).run bs = some s →
      Followed file bs s := fun bs s hok hrun =>
    Machine.run_history_invariant_of (J := Followed file) (Followed.init hfile)
      (fun _ _ _ _ hrun h hsafe hstep => h.next hrun hsafe hstep) hok hrun
  constructor
  · intro pre post m s r has hpre hrun hr hfinished
    rcases (hfollow as s hok hrun).kept r hfinished ⟨pre, post, m, has, hpre, hr⟩ with hp | hheld
    · exact .inr hp
    · exact .inl hheld.file
  · rintro pre ok post m rfl hpre hwriting
    have hinv := (hfollow pre m (meets_before hok hpre) hpre).inv
    have hloaded : m.loaded = true := by
      by_contra hnot
      exact hwriting (hinv.unloaded (Bool.not_eq_true _ ▸ hnot))
    exact hinv.seen hloaded (hinv.writing hwriting)

/-- A transfer that was completed. -/
def exampleRecord : TransferRecord where
  info :=
    { transferId := "t", status := .completed, error := none
      createdAt := "2026-01-01T00:00:00+00:00", updatedAt := "2026-01-01T00:00:01+00:00" }
  overwrite := true
  accelerated := false
  stagingPath := ""
  workerParts := 1

/-- The file of an earlier program. -/
def exampleFile (version : ℕ) : HistoryFile :=
  .snapshot ⟨version, [exampleRecord]⟩

/-- The history is loaded, written, and loaded again by the next program, which writes it
after a second transfer was removed. -/
theorem durable_of_run_reloaded :
    let as := [.loadRead true, .loadInsert "2026-01-02T00:00:00+00:00", .persistView,
      .persistWrite true, .restart, .loadRead true, .loadInsert "2026-01-03T00:00:00+00:00",
      .remove "u", .persistView, .persistWrite true]
    Durable (exampleFile 1) as ∧ Informed (exampleFile 1) as :=
  durable_of_run (by decide +kernel) (by decide +kernel)

/-- The completed transfer of the file is lost when a transfer that is unknown is removed before
the load has read the file, when the load has failed, and when the file is of a later
version. -/
theorem unloaded_history_lost :
    ¬ Durable (exampleFile 2) [.remove "u", .persistView, .persistWrite true] ∧
    ¬ Durable (exampleFile 2) [.loadRead false, .persistView, .persistWrite true] ∧
    ¬ Durable (exampleFile 3) [.loadRead true, .persistView, .persistWrite true] := by
  have key : ∀ file as, exampleRecord ∈ file.transfers →
      (((history file).run as).any fun s => ¬ Listed s.file.transfers exampleRecord) = true →
      ¬ (history file).Passes (GivenUp exampleRecord) as → ¬ Durable file as := by
    intro file as hmem hlost hpasses h
    obtain ⟨s, hrun, hs⟩ := (Option.any_eq_true _ _).mp hlost
    rw [decide_eq_true_eq] at hs
    rcases h [] as (history file).init s exampleRecord rfl rfl hrun hmem (by decide) with h | h
    · exact hs h
    · exact hpasses h
  refine ⟨?_, ?_, ?_⟩
  · exact key _ _ (by decide +kernel) (by decide +kernel) (by decide +kernel)
  · exact key _ _ (by decide +kernel) (by decide +kernel) (by decide +kernel)
  · exact key _ _ (by decide +kernel) (by decide +kernel) (by decide +kernel)

end History
end Transfer
end HelmSsh
