/-
# An API upload commits only what it has verified

What `api_upload_stream` (`src-tauri/src/remote/runtime_api.rs`) knows at each place where it
waits is `Stage`: how much of the body is in the temporary file, that the hasher has seen the
same bytes, and from the comparison of the sizes on that the file is the whole body
(`Verified`).  `Inv.step` keeps it, and `verified_of_run` is what follows of the target and of
the temporary file for every run: whatever the body stream, the server and the close of the
SFTP session do, and wherever the request is dropped.
-/

import HelmSsh.Remote.ApiUpload

namespace HelmSsh
namespace Remote
namespace ApiUpload

/-- The temporary file is the whole body, within the limit, with the size that the server
reports and the digest that was asked for. -/
structure Verified (r : Request) (s : Upload) : Prop where
  whole : s.temp = r.body
  within : r.body.length ≤ r.maxBytes
  size : s.remoteSize = some r.body.length
  digest : ∀ digest, r.expected = some digest → r.sha256 r.body = digest

theorem Verified.congr {r : Request} {s s' : Upload} (h : Verified r s) (htemp : s'.temp = s.temp)
    (hsize : s'.remoteSize = s.remoteSize) : Verified r s' where
  whole := htemp.trans h.whole
  within := h.within
  size := hsize.trans h.size
  digest := h.digest

/-- What was copied is counted, and within the limit. -/
structure Copied (r : Request) (s : Upload) : Prop where
  count : s.bytesDone = s.temp.length
  within : s.bytesDone ≤ r.maxBytes
  armed : s.armed = true
  sent : s.sent = false

/-- What holds where the upload waits, when it has read `received` of the body. -/
def Stage (r : Request) (s : Upload) (received : List UInt8) : Phase → Prop
  | .queued | .choosing =>
    received = [] ∧ s.temp = [] ∧ s.bytesDone = 0 ∧ s.sent = false ∧ s.created = false
  | .opening => received = [] ∧ s.temp = [] ∧ Copied r s
  | .reading read => received = s.temp ++ read ∧ Copied r s
  | .writing chunk reachedEof => received = s.temp ++ chunk ∧ Copied r s ∧
      s.bytesDone + chunk.length ≤ r.maxBytes ∧ (reachedEof = true → s.remaining = [])
  | .flushing | .shuttingDown => received = s.temp ∧ s.remaining = [] ∧ Copied r s
  | .sizing => received = s.temp ∧ s.remaining = [] ∧ Copied r s ∧
      ∀ digest, r.expected = some digest → r.sha256 s.temp = digest
  | .replacing _ => Verified r s ∧ s.bytesDone = r.body.length ∧ s.armed = true
  | .cleaning _ => s.armed = true ∧ s.attempted = true
  | .returned (.ok result) => s.target = some r.body ∧ result.1 = r.body.length
  | .returned (.error _) => s.created = true → s.attempted = true
  | .dropped => s.created = true → s.attempted = true ∨ s.scheduled = true

/-- The invariant of an upload. -/
structure Inv (r : Request) (s : Upload) : Prop where
  stage : ∃ received, r.body = received ++ s.remaining ∧
    s.hashed = (if r.expectedSha256.isSome then some received else none) ∧
    Stage r s received s.phase
  sent : s.sent = true → Verified r s
  target : ∀ content, s.target = some content → s.sent = true ∧ content = r.body
  created : s.created = true → s.pending = true → s.armed = true

namespace Inv

variable {r : Request} {s s' : Upload}

theorem start (r : Request) (closed : Bool) : Inv r (ApiUpload.start r closed) where
  stage := ⟨[], rfl, rfl, rfl, rfl, rfl, rfl, rfl⟩
  sent h := by cases h
  target _ h := by cases h
  created h := by cases h

theorem fail (h : Inv r s) (harmed : s.armed = true) (error : AppError) :
    Inv r (s.fail error) where
  stage := by
    obtain ⟨received, hbody, hhashed, -⟩ := h.stage
    exact ⟨received, hbody, hhashed, harmed, rfl⟩
  sent hs := (h.sent hs).congr rfl rfl
  target := h.target
  created _ _ := harmed

/-- The upload goes on to wait elsewhere, with its files as they are. -/
theorem goOn (h : Inv r s) (harmed : s.armed = true) (phase : Phase)
    (hstage : ∀ received, r.body = received ++ s.remaining → Stage r s received s.phase →
      Stage r { s with phase := phase } received phase) :
    Inv r { s with phase := phase } where
  stage := by
    obtain ⟨received, hbody, hhashed, hs⟩ := h.stage
    exact ⟨received, hbody, hhashed, hstage received hbody hs⟩
  sent hs := (h.sent hs).congr rfl rfl
  target := h.target
  created _ _ := harmed

theorem andThen {α : Type} (h : Inv r s) (harmed : s.armed = true) (result : Except String α)
    {next : α → Upload} (hnext : ∀ value, Inv r (next value)) :
    Inv r (s.andThen result next) := by
  cases result with
  | ok value => exact hnext value
  | error message => exact h.fail harmed _

end Inv

section Copy

variable {r : Request} {s : Upload} {read : List UInt8}

/-- Before the command is sent only the stage matters. -/
theorem Inv.unsent {received : List UInt8} (hbody : r.body = received ++ s.remaining)
    (hhashed : s.hashed = if r.expectedSha256.isSome then some received else none)
    (hstage : Stage r s received s.phase) (harmed : s.armed = true) (hsent : s.sent = false)
    (htarget : s.target = none) : Inv r s where
  stage := ⟨received, hbody, hhashed, hstage⟩
  sent hs := by
    rw [hsent] at hs
    cases hs
  target content hc := by
    rw [htarget] at hc
    cases hc
  created _ _ := harmed

theorem Inv.target_eq_none (h : Inv r s) (hsent : s.sent = false) : s.target = none := by
  by_contra hsome
  obtain ⟨content, hc⟩ := Option.ne_none_iff_exists'.mp hsome
  have := (h.target content hc).1
  rw [hsent] at this
  cases this

theorem inv_check (hmax : r.maxBytes < u64Max) {chunk : List UInt8} {reachedEof : Bool}
    (hbody : r.body = s.temp ++ chunk ++ s.remaining)
    (hhashed : s.hashed = if r.expectedSha256.isSome then some (s.temp ++ chunk) else none)
    (hcopied : Copied r s) (htarget : s.target = none)
    (heof : reachedEof = true → s.remaining = []) : Inv r (s.check r chunk reachedEof) := by
  rw [Upload.check]
  split_ifs with hlong
  · exact .unsent hbody hhashed ⟨hcopied.armed, rfl⟩ hcopied.armed hcopied.sent htarget
  · have hfits : s.bytesDone + chunk.length ≤ r.maxBytes := by omega
    exact .unsent hbody hhashed
      ⟨rfl, ⟨hcopied.count, hcopied.within, hcopied.armed, hcopied.sent⟩, hfits, heof⟩
      hcopied.armed hcopied.sent htarget

/-- **A read of the body**: what is read goes to the hasher and into the buffer. -/
theorem Inv.afterRead (hmax : r.maxBytes < u64Max) (h : Inv r s) (hphase : s.phase = .reading read)
    {result : ReadResult} (hreadable : s.readable read result = true) :
    Inv r (s.afterRead r read result) := by
  obtain ⟨received, hbody, hhashed, hstage⟩ := h.stage
  rw [hphase] at hstage
  obtain ⟨rfl, hcopied⟩ := hstage
  have htarget := h.target_eq_none hcopied.sent
  cases result with
  | bytes chunk =>
    simp only [Upload.readable, decide_eq_true_eq] at hreadable
    obtain ⟨rest, hrest⟩ := hreadable.2.1
    have hdrop : s.remaining.drop chunk.length = rest := by
      rw [← hrest, List.drop_left]
    have hbody' : r.body = s.temp ++ (read ++ chunk) ++ s.remaining.drop chunk.length := by
      rw [hbody, hdrop, ← hrest]
      simp only [List.append_assoc]
    have hhashed' : s.hashed.map (· ++ chunk) =
        if r.expectedSha256.isSome then some (s.temp ++ (read ++ chunk)) else none := by
      rw [hhashed]
      split_ifs
      · rw [Option.map_some, List.append_assoc]
      · rfl
    rw [Upload.afterRead]
    dsimp only
    split_ifs
    · exact .unsent hbody' hhashed'
        ⟨rfl, hcopied.count, hcopied.within, hcopied.armed, hcopied.sent⟩
        hcopied.armed hcopied.sent htarget
    · exact inv_check hmax hbody' hhashed'
        ⟨hcopied.count, hcopied.within, hcopied.armed, hcopied.sent⟩ htarget fun hf => by cases hf
  | eof =>
    have hnil : s.remaining = [] := of_decide_eq_true hreadable
    rw [Upload.afterRead]
    split_ifs with hread
    · rw [hread, List.append_nil] at hbody hhashed
      exact .unsent hbody hhashed
        ⟨rfl, hnil, hcopied.count, hcopied.within, hcopied.armed, hcopied.sent⟩
        hcopied.armed hcopied.sent htarget
    · exact inv_check hmax hbody hhashed hcopied htarget fun _ => hnil
  | error message => exact h.fail hcopied.armed _
  | timeout => exact h.fail hcopied.armed _

/-- **A write**: what is in the file is what was read. -/
theorem Inv.afterWrite (h : Inv r s) {chunk : List UInt8} {reachedEof : Bool}
    (hphase : s.phase = .writing chunk reachedEof) : Inv r (s.afterWrite chunk reachedEof) := by
  obtain ⟨received, hbody, hhashed, hstage⟩ := h.stage
  rw [hphase] at hstage
  obtain ⟨rfl, hcopied, hfits, heof⟩ := hstage
  have htarget := h.target_eq_none hcopied.sent
  have hcopied' : Copied r (s.afterWrite chunk reachedEof) := by
    refine ⟨?_, hfits, hcopied.armed, hcopied.sent⟩
    show s.bytesDone + chunk.length = (s.temp ++ chunk).length
    rw [List.length_append, hcopied.count]
  refine .unsent hbody hhashed ?_ hcopied.armed hcopied.sent htarget
  cases reachedEof with
  | true => exact ⟨rfl, heof rfl, hcopied'⟩
  | false =>
    refine ⟨?_, hcopied'⟩
    show s.temp ++ chunk = s.temp ++ chunk ++ []
    rw [List.append_nil]

/-- The digest is compared with that of the whole file. -/
theorem Inv.compareDigest (h : Inv r s) (hphase : s.phase = .shuttingDown) :
    Inv r (s.compareDigest r) := by
  obtain ⟨received, hbody, hhashed, hstage⟩ := h.stage
  rw [hphase] at hstage
  obtain ⟨rfl, hnil, hcopied⟩ := hstage
  have htarget := h.target_eq_none hcopied.sent
  have hgoes : (∀ digest, r.expected = some digest → r.sha256 s.temp = digest) →
      Inv r { s with phase := .sizing } := fun hdigest =>
    .unsent hbody hhashed
      ⟨rfl, hnil, ⟨hcopied.count, hcopied.within, hcopied.armed, hcopied.sent⟩, hdigest⟩
      hcopied.armed hcopied.sent htarget
  rw [Upload.compareDigest]
  cases hexpected : r.expected with
  | none => exact hgoes fun digest hd => by rw [hexpected] at hd; cases hd
  | some expected =>
    have hsome : r.expectedSha256.isSome = true := by
      rw [Request.expected, Option.map_eq_some_iff] at hexpected
      obtain ⟨digest, hdigest, -⟩ := hexpected
      rw [hdigest]
      rfl
    have hactual : s.hashed.map r.sha256 = some (r.sha256 s.temp) := by
      rw [hhashed, if_pos hsome, Option.map_some]
    rw [hactual]
    dsimp only
    split_ifs with hdiffers
    · exact h.fail hcopied.armed _
    · refine hgoes fun digest hd => ?_
      rw [hexpected] at hd
      rw [← Option.some.inj hd]
      exact (not_not.mp hdiffers).symm

/-- The size that the server reports is that of the body. -/
theorem Inv.compareSize (h : Inv r s) (hphase : s.phase = .sizing) (size : ℕ) :
    Inv r (s.compareSize size) := by
  obtain ⟨received, hbody, hhashed, hstage⟩ := h.stage
  rw [hphase] at hstage
  obtain ⟨rfl, hnil, hcopied, hdigest⟩ := hstage
  have htarget := h.target_eq_none hcopied.sent
  have hwhole : s.temp = r.body := by
    rw [hbody, hnil, List.append_nil]
  have hlength : s.bytesDone = r.body.length := by
    rw [hcopied.count, hwhole]
  rw [Upload.compareSize]
  split_ifs with hdiffers
  · exact h.fail hcopied.armed _
  · have hsize : size = r.body.length := (not_not.mp hdiffers).trans hlength
    refine .unsent hbody hhashed ⟨⟨hwhole, ?_, ?_, ?_⟩, hlength, hcopied.armed⟩ hcopied.armed
      hcopied.sent htarget
    · rw [← hlength]
      exact hcopied.within
    · rw [hsize]
    · rw [← hwhole]
      exact hdigest

end Copy

section Replace

variable {r : Request} {s s' : Upload}

theorem Inv.replacing (h : Inv r s) {phase : ReplacePhase} (hphase : s.phase = .replacing phase) :
    Verified r s ∧ s.bytesDone = r.body.length ∧ s.armed = true := by
  obtain ⟨received, -, -, hstage⟩ := h.stage
  rwa [hphase] at hstage

theorem Inv.replaceGoOn (h : Inv r s) {phase : ReplacePhase} (hphase : s.phase = .replacing phase)
    (phase' : ReplacePhase) : Inv r { s with phase := .replacing phase' } := by
  obtain ⟨hverified, hcount, harmed⟩ := h.replacing hphase
  exact h.goOn harmed _ fun _ _ _ => ⟨hverified.congr rfl rfl, hcount, harmed⟩

/-- **The command is sent for a file that was verified.** -/
theorem Inv.send (h : Inv r s) {phase : ReplacePhase} (hphase : s.phase = .replacing phase) :
    Inv r s.send := by
  obtain ⟨hverified, hcount, harmed⟩ := h.replacing hphase
  obtain ⟨received, hbody, hhashed, -⟩ := h.stage
  exact {
    stage := ⟨received, hbody, hhashed, hverified.congr rfl rfl, hcount, harmed⟩
    sent := fun _ => hverified.congr rfl rfl
    target := fun content hc => ⟨rfl, (h.target content hc).2⟩
    created := fun _ _ => harmed }

/-- **The upload succeeds after the move.** -/
theorem Inv.finish (h : Inv r s) (hphase : s.phase = .replacing .command) {result : CommandResult}
    (hmoved : ¬ (result.timedOut = false ∧ result.exitStatus.getD 1 = 0 ∧ s.target = none)) :
    Inv r (s.finish r result) := by
  obtain ⟨hverified, hcount, harmed⟩ := h.replacing hphase
  obtain ⟨received, hbody, hhashed, -⟩ := h.stage
  rw [Upload.finish]
  split_ifs with htimed hstatus
  · exact h.fail harmed _
  · have htarget : s.target = some r.body := by
      cases hc : s.target with
      | none => exact absurd ⟨Bool.not_eq_true _ ▸ htimed, hstatus, hc⟩ hmoved
      | some content => rw [(h.target content hc).2]
    exact {
      stage := ⟨received, hbody, hhashed, htarget, hcount⟩
      sent := fun hs => (h.sent hs).congr rfl rfl
      target := h.target
      created := fun _ hp => by cases hp }
  · exact h.fail harmed _

/-- What `replace_remote_file` gets back keeps the invariant. -/
theorem Inv.replaceStep (h : Inv r s) {phase : ReplacePhase} (hphase : s.phase = .replacing phase)
    {e : Event} (hstep : s.replaceStep r phase e = some s') : Inv r s' := by
  have harmed := (h.replacing hphase).2.2
  unfold Upload.replaceStep at hstep
  split at hstep
  · obtain rfl := Option.some.inj hstep
    exact h.replaceGoOn hphase _
  · obtain rfl := Option.some.inj hstep
    exact h.fail harmed _
  · obtain rfl := Option.some.inj hstep
    refine h.andThen harmed _ fun kind => ?_
    rw [Upload.checkStaging]
    split_ifs
    · exact h.replaceGoOn hphase _
    · exact h.fail harmed _
  · rename_i kind
    obtain rfl := Option.some.inj hstep
    cases kind with
    | regular => exact h.replaceGoOn hphase _
    | symlink => exact h.fail harmed _
    | other => exact h.fail harmed _
  · obtain rfl := Option.some.inj hstep
    exact h.replaceGoOn hphase _
  · obtain rfl := Option.some.inj hstep
    refine h.andThen harmed _ fun found => ?_
    split_ifs
    · exact h.fail harmed _
    · exact h.send hphase
  · obtain rfl := Option.some.inj hstep
    exact h.andThen harmed _ fun _ => h.send hphase
  · obtain rfl := Option.some.inj hstep
    exact h.fail harmed _
  · split_ifs at hstep with hmoved
    obtain rfl := Option.some.inj hstep
    exact h.finish hphase hmoved
  · cases hstep

end Replace

section Step

variable {r : Request} {s s' : Upload}

/-- Without a temporary file there is nothing to remove. -/
theorem Inv.refuse (h : Inv r s) (hphase : s.phase = .queued ∨ s.phase = .choosing)
    (error : AppError) : Inv r { s with phase := .returned (.error error) } := by
  obtain ⟨received, hbody, hhashed, hstage⟩ := h.stage
  have hfresh : s.created = false := by
    rcases hphase with hphase | hphase <;> rw [hphase] at hstage <;> exact hstage.2.2.2.2
  exact {
    stage := ⟨received, hbody, hhashed, fun hc => by rw [hfresh] at hc; cases hc⟩
    sent := fun hs => (h.sent hs).congr rfl rfl
    target := h.target
    created := fun _ hp => by cases hp }

/-- What an awaited call gives back keeps the invariant. -/
theorem Inv.callStep (hmax : r.maxBytes < u64Max) (h : Inv r s) {e : Event}
    (hstep : s.callStep r s.phase e = some s') : Inv r s' := by
  obtain ⟨received, hbody, hhashed, hstage⟩ := h.stage
  unfold Upload.callStep at hstep
  split at hstep
  case h_1 hphase =>
    obtain rfl := Option.some.inj hstep
    exact h.refuse (.inl hphase) _
  case h_2 hphase =>
    split_ifs at hstep
    obtain rfl := Option.some.inj hstep
    rw [hphase] at hstage
    exact {
      stage := ⟨received, hbody, hhashed, hstage⟩
      sent := fun hs => (h.sent hs).congr rfl rfl
      target := h.target
      created := fun hc => by
        have hfresh : s.created = false := hstage.2.2.2.2
        rw [hfresh] at hc
        cases hc }
  case h_3 hphase =>
    split_ifs at hstep
    · obtain rfl := Option.some.inj hstep
      exact h.refuse (.inr hphase) _
    · obtain rfl := Option.some.inj hstep
      rw [hphase] at hstage
      obtain ⟨hreceived, htemp, hdone, hsent, -⟩ := hstage
      refine .unsent hbody hhashed ⟨hreceived, htemp, ?_, ?_, rfl, hsent⟩ rfl hsent
        (h.target_eq_none hsent)
      · rw [htemp, hdone]
        rfl
      · rw [hdone]
        exact Nat.zero_le _
  case h_4 hphase =>
    obtain rfl := Option.some.inj hstep
    rw [hphase] at hstage
    obtain ⟨hreceived, htemp, hcopied⟩ := hstage
    refine h.andThen hcopied.armed _ fun _ => h.goOn hcopied.armed _
      fun received' hbody' hstage' => ?_
    rw [hphase] at hstage'
    obtain ⟨hreceived', -, -⟩ := hstage'
    refine ⟨?_, hcopied.count, hcopied.within, hcopied.armed, hcopied.sent⟩
    rw [hreceived', htemp]
    rfl
  case h_5 hphase =>
    split_ifs at hstep with hreadable
    obtain rfl := Option.some.inj hstep
    exact h.afterRead hmax hphase hreadable
  case h_6 hphase =>
    obtain rfl := Option.some.inj hstep
    rw [hphase] at hstage
    exact h.andThen hstage.2.1.armed _ fun _ => h.afterWrite hphase
  case h_7 hphase =>
    obtain rfl := Option.some.inj hstep
    rw [hphase] at hstage
    have hcopied := hstage.2.2
    refine h.andThen hcopied.armed _ fun _ => h.goOn hcopied.armed _
      fun received' hbody' hstage' => ?_
    rw [hphase] at hstage'
    exact ⟨hstage'.1, hstage'.2.1, hcopied.count, hcopied.within, hcopied.armed, hcopied.sent⟩
  case h_8 hphase =>
    obtain rfl := Option.some.inj hstep
    rw [hphase] at hstage
    exact h.andThen hstage.2.2.armed _ fun _ => h.compareDigest hphase
  case h_9 hphase =>
    obtain rfl := Option.some.inj hstep
    rw [hphase] at hstage
    exact h.andThen hstage.2.2.1.armed _ fun size => h.compareSize hphase size
  case h_10 hphase => exact h.replaceStep hphase hstep
  case h_11 hphase =>
    obtain rfl := Option.some.inj hstep
    rw [hphase] at hstage
    exact {
      stage := ⟨received, hbody, hhashed, fun _ => hstage.2⟩
      sent := fun hs => (h.sent hs).congr rfl rfl
      target := h.target
      created := fun _ hp => by cases hp }
  case h_12 => cases hstep

/-- The upload is dropped: the removal is scheduled if there is something to remove. -/
theorem Inv.drop (h : Inv r s) (hpending : s.pending = true) :
    Inv r { s with phase := .dropped, scheduled := s.armed, armed := false } := by
  obtain ⟨received, hbody, hhashed, -⟩ := h.stage
  exact {
    stage := ⟨received, hbody, hhashed, fun hc => .inr (h.created hc hpending)⟩
    sent := fun hs => (h.sent hs).congr rfl rfl
    target := h.target
    created := fun _ hp => by cases hp }

/-- The stage does not depend on the flag of the session, nor on the move. -/
theorem Stage.congr {received : List UInt8} {p : Phase} (h : Stage r s received p) (closed : Bool)
    {target : Option (List UInt8)} (htarget : ∀ x, p = .returned (.ok x) → target = s.target) :
    Stage r { s with closed := closed, target := target } received p := by
  have hcopied : ∀ {q : Upload}, Copied r q → ∀ (c : Bool) (t : Option (List UInt8)),
      Copied r { q with closed := c, target := t } := fun hq _ _ =>
    ⟨hq.count, hq.within, hq.armed, hq.sent⟩
  cases p with
  | queued => exact h
  | choosing => exact h
  | opening => exact ⟨h.1, h.2.1, hcopied h.2.2 _ _⟩
  | reading read => exact ⟨h.1, hcopied h.2 _ _⟩
  | writing chunk reachedEof => exact ⟨h.1, hcopied h.2.1 _ _, h.2.2⟩
  | flushing => exact ⟨h.1, h.2.1, hcopied h.2.2 _ _⟩
  | shuttingDown => exact ⟨h.1, h.2.1, hcopied h.2.2 _ _⟩
  | sizing => exact ⟨h.1, h.2.1, hcopied h.2.2.1 _ _, h.2.2.2⟩
  | replacing phase => exact ⟨h.1.congr rfl rfl, h.2⟩
  | cleaning error => exact h
  | returned result =>
    cases result with
    | ok x => exact ⟨(htarget x rfl).trans h.1, h.2⟩
    | error error => exact h
  | dropped => exact h

/-- **Every event keeps the invariant.** -/
theorem Inv.step (hmax : r.maxBytes < u64Max) (h : Inv r s) {e : Event}
    (hstep : s.step r e = some s') : Inv r s' := by
  obtain ⟨received, hbody, hhashed, hstage⟩ := h.stage
  unfold Upload.step at hstep
  split at hstep
  case h_1 =>
    obtain rfl := Option.some.inj hstep
    exact {
      stage := ⟨received, hbody, hhashed, hstage.congr true fun _ _ => rfl⟩
      sent := fun hs => (h.sent hs).congr rfl rfl
      target := h.target
      created := h.created }
  case h_2 =>
    split_ifs at hstep with hseen
    obtain rfl := Option.some.inj hstep
    rw [Bool.and_eq_true] at hseen
    refine h.fail ?_ _
    have hcopying := hseen.1
    unfold Upload.copying at hcopying
    split at hcopying
    case h_1 hphase => rw [hphase] at hstage; exact hstage.2.armed
    case h_2 hphase => rw [hphase] at hstage; exact hstage.2.1.armed
    case h_3 hphase => rw [hphase] at hstage; exact hstage.2.2.armed
    case h_4 => cases hcopying
  case h_3 =>
    split_ifs at hstep with hpending
    obtain rfl := Option.some.inj hstep
    exact h.drop hpending
  case h_4 =>
    split_ifs at hstep with hsent
    obtain rfl := Option.some.inj hstep
    refine {
      stage := ⟨received, hbody, hhashed, ?_⟩
      sent := fun hs => (h.sent hs).congr rfl rfl
      target := fun content hc => ?_
      created := h.created }
    · refine hstage.congr s.closed fun x hx => ?_
      rw [hx] at hstage
      rw [hstage.1] at hsent
      cases hsent.2
    · exact ⟨hsent.1, by rw [← Option.some.inj hc, (h.sent hsent.1).whole]⟩
  case h_5 => exact h.callStep hmax hstep

end Step

/-- **An upload replaces the target by what it has verified only.**  In every run, with every
body, chunking, answer of the server, close and drop: what replaces the target is the whole
body, at most as long as the limit, of the size that the server reports and with the digest
that was asked for.  A successful upload has replaced the target and returns its length; on
every other ending the removal of a temporary file that may exist was attempted or
scheduled. -/
theorem verified_of_run {r : Request} (hmax : r.maxBytes < u64Max) {closed : Bool} {s : Upload}
    {es : List Event} (hrun : (upload r closed).run es = some s) :
    (∀ content, s.target = some content → content = r.body ∧ content.length ≤ r.maxBytes ∧
        s.remoteSize = some content.length ∧
        ∀ digest, r.expected = some digest → r.sha256 content = digest) ∧
      (∀ written digest, s.phase = .returned (.ok (written, digest)) →
        s.target = some r.body ∧ written = r.body.length) ∧
      (((∃ error, s.phase = .returned (.error error)) ∨ s.phase = .dropped) →
        s.created = true → s.attempted = true ∨ s.scheduled = true) := by
  have h : Inv r s := by
    refine Machine.run_invariant (.start r closed) (fun t e t' ht hstep => ?_) hrun
    exact ht.step hmax hstep
  obtain ⟨received, -, -, hstage⟩ := h.stage
  refine ⟨fun content hc => ?_, fun written digest hphase => ?_, fun hended hcreated => ?_⟩
  · obtain ⟨hsent, rfl⟩ := h.target content hc
    have hverified := h.sent hsent
    exact ⟨rfl, hverified.within, hverified.size, hverified.digest⟩
  · rw [hphase] at hstage
    exact hstage
  · rcases hended with ⟨error, hphase⟩ | hphase
    · rw [hphase] at hstage
      exact .inl (hstage hcreated)
    · rw [hphase] at hstage
      exact hstage hcreated

/-- Three bytes with their digest. -/
def threeBytes : Request where
  body := [1, 2, 3]
  expectedSha256 := some "039058C6F2C0CB492C533B0A4D14EF77CC0F78ABCCCED5287D84A1A2011CFB81"
  maxBytes := 1024
  sha256 := fun _ => "039058c6f2c0cb492c533b0a4d14ef77cc0f78abccced5287d84a1a2011cfb81"
  isRoot := false

/-- The body in two parts, then every call succeeds. -/
def successfulUpload : List Event :=
  [.registered, .chosen, .opened (.ok ()), .read (.bytes [1]), .read (.bytes [2, 3]), .read .eof,
    .wrote (.ok ()), .flushed (.ok ()), .close, .shutDown (.ok ()), .sized (.ok 3),
    .recordFound (.ok ()), .stagingKind (.ok .regular), .targetKind (.error "no such file"),
    .targetExists (.ok false), .moved,
    .commandDone (.ok { exitStatus := some 0, timedOut := false, detail := "" })]

theorem verified_of_run_threeBytes : ∃ s, (upload threeBytes false).run successfulUpload = some s ∧
    s.target = some [1, 2, 3] ∧ s.remoteSize = some 3 := by
  have hrun : ((upload threeBytes false).run successfulUpload).any fun s =>
      s.target = some [1, 2, 3] := by decide +kernel
  obtain ⟨s, hs, htarget⟩ := (Option.any_eq_true _ _).mp hrun
  have htarget := of_decide_eq_true htarget
  obtain ⟨hverified, -, -⟩ := verified_of_run (by decide) hs
  exact ⟨s, hs, htarget, (hverified _ htarget).2.2.1⟩

end ApiUpload
end Remote
end HelmSsh
