/-
# What a resumed transfer commits

A transfer copies its source to a staging file, checks the size and puts the staging file
in the place of the target (`run_transfer` of `src-tauri/src/remote/transfer.rs`).  An
attempt that ends before leaves its staging file, and a later one that resumes
(`transfer_retry`, `resume = true`) goes on behind the bytes it finds there: of the file
it looks at the length only (`prepare_local_staging`, `prepare_remote_staging`).

The events are the steps of the attempts, one after another, and everything that ends
them: errors, cancellation, a forced abort of the task (`cancel_transfer_in_place`) and
the end of the program.  A write is issued first and takes effect later, or is lost, also
after the end of its attempt: the writes of SFTP are pipelined and those of a local file
are made by another thread.  (One that takes effect in part is two, the second of them
lost.)  The source stays the same, and nobody else uses the staging file.

A parallel copy writes its parts in any order, a download into a file that has its full
length from the start.  `State.torn` says that the file may have a hole: an attempt ended
in the middle of a parallel copy with the file as it was, the file was cut behind a byte
that had not been written, or a write took effect beyond its end.  `resume_safe`: what is
committed is the source, when no attempt resumes from a torn file.
`presized_commits_zeros`: otherwise it need not be.
-/

import HelmSsh.ByteFile
import HelmSsh.Machine
import HelmSsh.Transfer.Parts

namespace HelmSsh
namespace Transfer
namespace Resume

open ByteFile

/-- The bytes of a file. -/
abbrev Bytes := List UInt8

/-- A write that was issued. -/
structure Write where
  attempt : ℕ
  offset : ℕ
  data : Bytes
  deriving DecidableEq

/-- Where an attempt is in `run_transfer`. -/
inductive Phase where
  /-- Before `prepare_local_staging` or `prepare_remote_staging`. -/
  | starting
  /-- The staging file is about to be opened. -/
  | opening (resumeFrom : ℕ)
  /-- The staging file is empty, and a parallel copy is about to begin. -/
  | presizing (parts : ℕ)
  /-- In `copy_async`, or in the workers of `run_parallel_upload` or
  `run_parallel_download`. -/
  | copying (parallel : Bool) (parts : List Part)
  /-- A part of a parallel copy has failed: the file is about to be cut. -/
  | stopping (parts : List Part)
  /-- The file could not be cut and is about to be removed. -/
  | removing
  /-- Before the check of the size. -/
  | verifying
  /-- Before the replacement of the target. -/
  | committing
  deriving DecidableEq

/-- A run of `run_transfer`. -/
structure Attempt where
  id : ℕ
  resume : Bool
  phase : Phase
  deriving DecidableEq

/-- The staging file and whether it is torn, the writes on their way to it and those that
were lost, the present attempt and the number of all, and what was resumed from and
committed. -/
structure State where
  staging : Option Bytes
  torn : Bool
  pending : List Write
  lost : List Write
  attempt : Option Attempt
  attempts : ℕ
  resumed : List (ℕ × Bytes)
  commits : List Bytes

/-- The steps of the attempts and what ends them. -/
inductive Event where
  | start (resume : Bool)
  | prepare
  | openFile
  | presize
  | issue (part bytes : ℕ)
  | count (part : ℕ)
  | perform (write : Write)
  | lose (write : Write)
  | finish
  | stop
  | truncate
  | truncateFails
  | remove
  | removeFails
  | verify
  | commit
  | fail
  | abort (removed : Bool)
  | die

/-- `prepare_local_staging` and `prepare_remote_staging`, on a regular file: where to resume
from, and what is left of the file. -/
def prepareStaging (sourceSize : ℕ) (resume : Bool) : Option Bytes → ℕ × Option Bytes
  | none => (0, none)
  | some file =>
    if resume = true ∧ file.length ≤ sourceSize then (file.length, some file) else (0, none)

/-- The empty staging file made ready for a parallel copy: `set_len` of a download. -/
def presized (total : ℕ) : Direction → Bytes → Bytes
  | .upload, file => file
  | .download, file => setLen 0 file total

/-- The whole file as one part, from a position on. -/
def wholePart (total resumeFrom : ℕ) : Part :=
  { start := 0, len := total, position := resumeFrom, counted := resumeFrom }

namespace State

/-- The attempt goes on in another phase. -/
def goTo (s : State) (a : Attempt) (phase : Phase) : State :=
  { s with attempt := some { a with phase := phase } }

/-- The attempt is in the middle of a parallel copy. -/
def scattered (s : State) : Bool :=
  s.attempt.any fun a =>
    match a.phase with
    | .copying parallel _ => parallel
    | .stopping _ => true
    | .removing => true
    | _ => false

/-- The attempt ends and leaves the file as it is. -/
def left (s : State) : State :=
  { s with attempt := none, torn := s.torn || s.scattered }

/-- The file is no longer at the path, and writes that are on their way to it do not reach
what will be there. -/
def removed (s : State) : State :=
  { s with staging := none, torn := false, pending := [] }

/-- The attempt has a write that has not taken effect and starts below a position. -/
def owes (s : State) (a : Attempt) (position : ℕ) : Bool :=
  (s.pending ++ s.lost).any fun write => write.attempt = a.id && write.offset < position

/-- All writes of the attempt have taken effect. -/
def Flushed (s : State) (a : Attempt) : Prop :=
  ∀ write ∈ s.pending ++ s.lost, write.attempt ≠ a.id

instance (s : State) (a : Attempt) : Decidable (s.Flushed a) :=
  inferInstanceAs (Decidable (∀ write ∈ s.pending ++ s.lost, write.attempt ≠ a.id))

end State

/-- The write takes effect, on the file as it is then. -/
def performWrite (s : State) (write : Write) : State :=
  { s with
    staging := s.staging.map fun file => writeAt 0 file write.offset write.data
    torn := s.torn || (!s.scattered && s.staging.any fun file => file.length < write.offset)
    pending := s.pending.erase write }

/-- The write will not take effect, which its attempt will notice. -/
def loseWrite (s : State) (write : Write) : State :=
  { s with pending := s.pending.erase write, lost := write :: s.lost }

variable (direction : Direction) (source : Bytes)

/-- The staging file is resumed from, or removed. -/
def prepare (s : State) (a : Attempt) : State :=
  match prepareStaging source.length a.resume s.staging with
  | (_, none) => s.removed.goTo a (.opening 0)
  | (resumeFrom, some file) =>
    { s with resumed := (resumeFrom, file) :: s.resumed }.goTo a (.opening resumeFrom)

/-- The staging file is opened, emptied unless it is resumed from. -/
def openStaging (s : State) (a : Attempt) (resumeFrom : ℕ) : State :=
  let parts := transferWorkerParts direction a.resume source.length
  if resumeFrom = 0 then
    { s with staging := some [], torn := false }.goTo a
      (if 2 ≤ parts then .presizing parts else .copying false [wholePart source.length 0])
  else
    { s with staging := some (s.staging.getD []) }.goTo a
      (.copying false [wholePart source.length resumeFrom])

/-- A part hands its next bytes to a write. -/
def issueWrite (s : State) (a : Attempt) (parallel : Bool) (parts : List Part) (part bytes : ℕ) :
    Option State :=
  match parts[part]? with
  | none => none
  | some p =>
    if 0 < bytes ∧ p.position + bytes ≤ p.len then
      let offset := p.start + p.position
      let write := { attempt := a.id, offset := offset, data := (source.drop offset).take bytes }
      some ({ s with pending := s.pending ++ [write] }.goTo a
        (.copying parallel
          (parts.modify part fun p => { p with position := p.position + bytes })))
    else none

/-- The file is cut to what the parts have counted without a gap. -/
def truncateStaging (s : State) (a : Attempt) (parts : List Part) (file : Bytes) : State :=
  let resumablePrefix := contiguousParallelPrefix parts
  { s with
    staging := some (setLen 0 file resumablePrefix)
    torn := s.owes a resumablePrefix
    attempt := none }

/-- A step of an attempt in its phase. -/
def attemptStep (s : State) (a : Attempt) : Phase → Event → Option State
  | .starting, .prepare => some (prepare source s a)
  | .opening resumeFrom, .openFile => some (openStaging direction source s a resumeFrom)
  | .presizing parts, .presize =>
    s.staging.map fun file =>
      { s with staging := some (presized source.length direction file) }.goTo a
        (.copying true (parallelParts source.length parts))
  | .copying parallel parts, .issue part bytes => issueWrite source s a parallel parts part bytes
  | .copying parallel parts, .count part =>
    some (s.goTo a (.copying parallel
      (parts.modify part fun p => { p with counted := p.position })))
  | .copying _ parts, .finish =>
    if (∀ p ∈ parts, p.position = p.len) ∧ s.Flushed a then some (s.goTo a .verifying) else none
  | .copying true parts, .stop => some (s.goTo a (.stopping parts))
  | .stopping parts, .truncate => s.staging.map (truncateStaging s a parts)
  | .stopping _, .truncateFails => some (s.goTo a .removing)
  | .removing, .remove => some { s.removed with attempt := none }
  | .removing, .removeFails => some s.left
  | .verifying, .verify =>
    s.staging.map fun file =>
      if file.length = source.length then s.goTo a .committing else s.left
  | .committing, .commit =>
    s.staging.map fun file => { s.removed with attempt := none, commits := file :: s.commits }
  | _, .abort true =>
    if 2 ≤ transferWorkerParts direction a.resume source.length then
      some { s.removed with attempt := none }
    else none
  | .starting, .fail => some s.left
  | .opening _, .fail => some s.left
  | .presizing _, .fail => some s.left
  | .copying false _, .fail => some s.left
  | .verifying, .fail => some s.left
  | .committing, .fail => some s.left
  | _, .abort false => some s.left
  | _, .die => some s.left
  | _, _ => none

/-- The effect of an event. -/
def step (s : State) : Event → Option State
  | .start resume =>
    match s.attempt with
    | some _ => none
    | none =>
      some { s with
        attempt := some { id := s.attempts, resume := resume, phase := .starting }
        attempts := s.attempts + 1 }
  | .perform write => if write ∈ s.pending then some (performWrite s write) else none
  | .lose write => if write ∈ s.pending then some (loseWrite s write) else none
  | event =>
    match s.attempt with
    | none => none
    | some a => attemptStep direction source s a a.phase event

/-- The attempts at one transfer. -/
def transfer : Machine State Event where
  init :=
    { staging := none, torn := false, pending := [], lost := [], attempt := none,
      attempts := 0, resumed := [], commits := [] }
  step := step direction source

/-- The condition of a step: no attempt resumes from a torn file. -/
def Orderly (s : State) : Event → Prop
  | .prepare =>
    s.torn = false ∨ ∀ a ∈ s.attempt, (prepareStaging source.length a.resume s.staging).1 = 0
  | _ => True

instance (s : State) (event : Event) : Decidable (Orderly source s event) := by
  cases event <;> unfold Orderly <;> infer_instance

/-! ### What has been copied -/

section Invariants

variable {source}

/-- The file has the byte of the source at a position, or a write of the attempt covers the
position. -/
def Reached (source : Bytes) (s : State) (id i : ℕ) : Prop :=
  (∃ file ∈ s.staging, Copied source file i) ∨
    ∃ write ∈ s.pending ++ s.lost, write.attempt = id ∧ write.offset ≤ i ∧
      i < write.offset + write.data.length

/-- A later state has the file still, with what was copied and with what was reached. -/
structure Keeps (source : Bytes) (s s' : State) : Prop where
  copied : ∀ file ∈ s.staging, ∃ file' ∈ s'.staging, ∀ i, Copied source file i →
    Copied source file' i
  reached : ∀ id i, Reached source s id i → Reached source s' id i

/-- What the parts of a copy have handed to writes is reached. -/
structure Copying (source : Bytes) (s : State) (id : ℕ) (parts : List Part) : Prop where
  opened : s.staging.isSome
  chained : Chained 0 source.length parts
  position_le : ∀ p ∈ parts, p.position ≤ p.len
  counted_le : ∀ p ∈ parts, p.counted ≤ p.position
  reached : ∀ p ∈ parts, ∀ i, p.start ≤ i → i < p.start + p.position → Reached source s id i

/-- The file has all bytes of the source below a position. -/
def CopiedBelow (source : Bytes) (s : State) (position : ℕ) : Prop :=
  position ≤ source.length ∧ ∀ i < position, ∃ file ∈ s.staging, Copied source file i

/-- What an attempt knows of the staging file in its phase. -/
def PhaseInv (source : Bytes) (s : State) (id : ℕ) : Phase → Prop
  | .starting => True
  | .opening resumeFrom => CopiedBelow source s resumeFrom
  | .presizing parts => s.staging.isSome ∧ 2 ≤ parts
  | .copying _ parts => Copying source s id parts
  | .stopping parts => Copying source s id parts
  | .removing => True
  | .verifying => s.staging = some source
  | .committing => s.staging = some source

/-- **The invariant of the attempts.**  Writes carry pieces of the source, and outside of a
parallel copy a file that is not torn is a prefix of it. -/
structure Inv (source : Bytes) (s : State) : Prop where
  pieces : ∀ write ∈ s.pending, Piece source write.offset write.data
  gone : s.staging = none → s.pending = []
  bounded : ∀ file ∈ s.staging, file.length ≤ source.length
  calm : s.torn = false → s.scattered = false → ∀ file ∈ s.staging, file <+: source
  phase : ∀ a ∈ s.attempt, PhaseInv source s a.id a.phase
  resumed : ∀ r ∈ s.resumed, r.2 <+: source ∧ r.2.length = r.1
  commits : ∀ file ∈ s.commits, file = source

variable {direction} {s s' : State} {a : Attempt}

/-- A write that takes effect keeps what was copied and reached. -/
theorem keeps_performWrite {write : Write} (hpiece : Piece source write.offset write.data)
    (hstaging : s.staging.isSome) : Keeps source s (performWrite s write) := by
  have hcopied : ∀ file ∈ s.staging, ∀ i,
      (write.offset ≤ i ∧ i < write.offset + write.data.length) ∨ Copied source file i →
      ∃ file' ∈ (performWrite s write).staging, Copied source file' i := by
    intro file hfile i h
    exact ⟨_, Option.mem_map_of_mem _ hfile, copied_writeAt hpiece h⟩
  refine ⟨fun file hfile => ?_, fun id i h => ?_⟩
  · exact ⟨_, Option.mem_map_of_mem _ hfile, fun i h => copied_writeAt hpiece (.inr h)⟩
  · rcases h with ⟨file, hfile, hi⟩ | ⟨other, hmem, hid, hlo, hhi⟩
    · exact .inl (hcopied file hfile i (.inr hi))
    · by_cases hsame : other = write
      · obtain ⟨file, hfile⟩ := Option.isSome_iff_exists.mp hstaging
        rw [hsame] at hlo hhi
        exact .inl (hcopied file hfile i (.inl ⟨hlo, hhi⟩))
      · refine .inr ⟨other, ?_, hid, hlo, hhi⟩
        rcases List.mem_append.mp hmem with h | h
        · exact List.mem_append_left _ ((List.mem_erase_of_ne hsame).mpr h)
        · exact List.mem_append_right _ h

/-- A write that is lost keeps what was copied and reached. -/
theorem keeps_loseWrite (write : Write) : Keeps source s (loseWrite s write) := by
  refine ⟨fun file hfile => ⟨file, hfile, fun i h => h⟩, fun id i h => ?_⟩
  rcases h with hcopied | ⟨other, hmem, hid, hlo, hhi⟩
  · exact .inl hcopied
  · refine .inr ⟨other, ?_, hid, hlo, hhi⟩
    by_cases hsame : other = write
    · rw [hsame]
      exact List.mem_append_right _ List.mem_cons_self
    · rcases List.mem_append.mp hmem with h | h
      · exact List.mem_append_left _ ((List.mem_erase_of_ne hsame).mpr h)
      · exact List.mem_append_right _ (List.mem_cons_of_mem _ h)

/-- What an attempt knows stays true while the file keeps what was copied. -/
theorem PhaseInv.keeps {id : ℕ} {phase : Phase} (h : PhaseInv source s id phase)
    (hkeeps : Keeps source s s') (hbounded : ∀ file ∈ s'.staging, file.length ≤ source.length) :
    PhaseInv source s' id phase := by
  have hisSome : s.staging.isSome → s'.staging.isSome := by
    intro hstaging
    obtain ⟨file, hfile⟩ := Option.isSome_iff_exists.mp hstaging
    obtain ⟨file', hfile', _⟩ := hkeeps.copied file hfile
    exact Option.isSome_iff_exists.mpr ⟨file', hfile'⟩
  have hcopying : ∀ parts, Copying source s id parts → Copying source s' id parts := by
    intro parts hparts
    exact { hparts with
      opened := hisSome hparts.opened
      reached := fun p hp i hlo hhi => hkeeps.reached id i (hparts.reached p hp i hlo hhi) }
  have hwhole : s.staging = some source → s'.staging = some source := by
    intro hstaging
    obtain ⟨file', hfile', hcopied⟩ := hkeeps.copied source hstaging
    have hsource : file' = source :=
      eq_of_copied (hbounded file' hfile') fun i hi =>
        hcopied i (prefix_copied (List.prefix_refl source) hi)
    rw [← hsource]
    exact hfile'
  cases phase with
  | starting => trivial
  | opening resumeFrom =>
    refine ⟨h.1, fun i hi => ?_⟩
    obtain ⟨file, hfile, hi⟩ := h.2 i hi
    obtain ⟨file', hfile', hcopied⟩ := hkeeps.copied file hfile
    exact ⟨file', hfile', hcopied i hi⟩
  | presizing parts => exact ⟨hisSome h.1, h.2⟩
  | copying parallel parts => exact hcopying parts h
  | stopping parts => exact hcopying parts h
  | removing => trivial
  | verifying => exact hwhole h
  | committing => exact hwhole h

/-! ### Each step keeps the invariant -/

theorem Inv.left (h : Inv source s) : Inv source s.left := by
  refine { h with calm := fun htorn _ => ?_, phase := fun a ha => by cases ha }
  have hboth : s.torn = false ∧ s.scattered = false := Bool.or_eq_false_iff.mp htorn
  exact h.calm hboth.1 hboth.2

/-- The removal of the file keeps the invariant, of an attempt that knows nothing of it. -/
theorem Inv.removed (h : Inv source s) {attempt : Option Attempt} {commits : List Bytes}
    (hphase : ∀ a ∈ attempt, PhaseInv source s.removed a.id a.phase)
    (hcommits : ∀ file ∈ commits, file = source) :
    Inv source { s.removed with attempt := attempt, commits := commits } where
  pieces := by
    intro write hwrite
    cases hwrite
  gone _ := rfl
  bounded := by
    intro file hfile
    cases hfile
  calm _ _ := by
    intro file hfile
    cases hfile
  phase := by
    intro a ha
    refine (hphase a ha).keeps ⟨fun file hfile => ⟨file, hfile, fun _ hi => hi⟩,
      fun _ _ hi => hi⟩ ?_
    intro file hfile
    cases hfile
  resumed := h.resumed
  commits := hcommits

/-- An attempt that goes on keeps the invariant, with what it knows in its new phase. -/
theorem Inv.goTo (h : Inv source s) {phase : Phase} (hphase : PhaseInv source s a.id phase)
    (hcalm : s.torn = false → s.scattered = true → (s.goTo a phase).scattered = false →
      ∀ file ∈ s.staging, file <+: source) :
    Inv source (s.goTo a phase) := by
  refine { h with calm := fun htorn hscattered => ?_, phase := fun b hb => ?_ }
  · cases hbefore : s.scattered with
    | false => exact h.calm htorn hbefore
    | true => exact hcalm htorn hbefore hscattered
  · obtain rfl := Option.some.inj hb
    exact hphase.keeps ⟨fun file hfile => ⟨file, hfile, fun _ hi => hi⟩, fun _ _ hi => hi⟩ h.bounded

theorem Inv.performWrite (h : Inv source s) {write : Write} (hwrite : write ∈ s.pending) :
    Inv source (performWrite s write) := by
  have hpiece := h.pieces write hwrite
  have hstaging : s.staging.isSome := by
    rw [Option.isSome_iff_ne_none]
    intro hnone
    rw [h.gone hnone] at hwrite
    cases hwrite
  have hbounded : ∀ file ∈ (Resume.performWrite s write).staging,
      file.length ≤ source.length := by
    intro file' hfile'
    obtain ⟨file, hfile, rfl⟩ := Option.map_eq_some_iff.mp hfile'
    rw [length_writeAt]
    exact max_le (h.bounded file hfile) hpiece.fits
  refine ⟨?_, ?_, hbounded, ?_, ?_, h.resumed, h.commits⟩
  · intro other hother
    exact h.pieces other (List.mem_of_mem_erase hother)
  · intro hnone
    rw [Option.map_eq_none_iff.mp hnone] at hstaging
    cases hstaging
  · intro htorn hscattered file' hfile'
    obtain ⟨file, hfile, rfl⟩ := Option.map_eq_some_iff.mp hfile'
    obtain ⟨hbefore, hhole⟩ := Bool.or_eq_false_iff.mp htorn
    have hnot : s.scattered = false := hscattered
    refine writeAt_prefix hpiece (h.calm hbefore hnot file hfile) ?_
    rw [hnot, Option.mem_def.mp hfile] at hhole
    simpa using hhole
  · intro a ha
    exact (h.phase a ha).keeps (keeps_performWrite hpiece hstaging) hbounded

theorem Inv.loseWrite (h : Inv source s) (write : Write) : Inv source (loseWrite s write) where
  pieces other hother := h.pieces other (List.mem_of_mem_erase hother)
  gone hnone := by
    show s.pending.erase write = []
    rw [h.gone hnone]
    rfl
  bounded := h.bounded
  calm := h.calm
  phase a ha := (h.phase a ha).keeps (keeps_loseWrite write) h.bounded
  resumed := h.resumed
  commits := h.commits

/-- An attempt that resumes from a file, which is not torn, or removes it. -/
theorem Inv.prepare (h : Inv source s) (ha : s.attempt = some a) (hphase : a.phase = .starting)
    (horderly : s.torn = false ∨ (prepareStaging source.length a.resume s.staging).1 = 0) :
    Inv source (prepare source s a) := by
  have hnew : ∀ s' : State, PhaseInv source s' a.id (.opening 0) := fun s' =>
    ⟨Nat.zero_le _, fun i hi => absurd hi (Nat.not_lt_zero i)⟩
  have hscattered : s.scattered = false := by
    rw [State.scattered, ha]
    simp [hphase]
  unfold Resume.prepare
  split
  · refine h.removed (fun b hb => ?_) h.commits
    obtain rfl := Option.some.inj hb
    exact hnew _
  · rename_i resumeFrom file hprepared
    rw [hprepared] at horderly
    obtain ⟨hfile, hlen⟩ : s.staging = some file ∧ file.length = resumeFrom := by
      cases hstaging : s.staging with
      | none => simp [prepareStaging, hstaging] at hprepared
      | some file' =>
        rw [prepareStaging.eq_def, hstaging] at hprepared
        simp only at hprepared
        split_ifs at hprepared with hresume
        · obtain ⟨hlen, rfl⟩ := Prod.mk.inj hprepared |>.imp id Option.some.inj
          exact ⟨rfl, hlen⟩
        · exact nomatch (Prod.mk.inj hprepared).2
    have hfront : file <+: source := by
      rcases horderly with htorn | hzero
      · exact h.calm htorn hscattered file hfile
      · have hempty : file = [] := List.eq_nil_of_length_eq_zero (hlen.trans hzero)
        rw [hempty]
        exact List.nil_prefix
    have hinv : Inv source { s with resumed := (resumeFrom, file) :: s.resumed } := by
      refine { h with phase := fun b hb => ?_, resumed := ?_ }
      · obtain rfl := Option.some.inj (ha.symm.trans hb)
        rw [hphase]
        trivial
      · exact List.forall_mem_cons.mpr ⟨⟨hfront, hlen⟩, h.resumed⟩
    refine hinv.goTo ?_ fun _ hbefore _ => absurd (hscattered.symm.trans hbefore) Bool.false_ne_true
    refine ⟨hlen ▸ hfront.length_le, fun i hi => ⟨file, hfile, prefix_copied hfront ?_⟩⟩
    rw [hlen]
    exact hi

/-- The whole file as one part is a copy in which the bytes before the position were copied. -/
theorem copying_wholePart {id position : ℕ} (hopened : s.staging.isSome)
    (h : CopiedBelow source s position) :
    Copying source s id [wholePart source.length position] where
  opened := hopened
  chained := ⟨rfl, Nat.zero_add _⟩
  position_le := by
    simp only [List.mem_singleton, forall_eq]
    exact h.1
  counted_le := by
    simp only [List.mem_singleton, forall_eq]
    exact Nat.le_refl position
  reached := by
    simp only [List.mem_singleton, forall_eq]
    intro i _ hi
    exact .inl (h.2 i (by rwa [← Nat.zero_add position]))

theorem Inv.openStaging (h : Inv source s) {resumeFrom : ℕ} (ha : s.attempt = some a)
    (hphase : a.phase = .opening resumeFrom) :
    Inv source (openStaging direction source s a resumeFrom) := by
  have hknown : CopiedBelow source s resumeFrom := by
    have hknown := h.phase a ha
    rwa [hphase] at hknown
  have hscattered : s.scattered = false := by
    rw [State.scattered, ha]
    simp [hphase]
  have hgoTo : ∀ s' : State, Inv source s' → s'.attempt = s.attempt → ∀ phase,
      PhaseInv source s' a.id phase → Inv source (s'.goTo a phase) := by
    intro s' hs' hsame phase hnext
    refine hs'.goTo hnext fun _ hbefore _ => ?_
    rw [State.scattered, hsame] at hbefore
    exact absurd (hscattered.symm.trans hbefore) Bool.false_ne_true
  unfold Resume.openStaging
  split_ifs with hzero
  all_goals simp only
  · have hempty : Inv source { s with staging := some [], torn := false } := by
      refine { h with gone := fun hnone => ?_, bounded := ?_, calm := ?_, phase := ?_ }
      · cases hnone
      · rintro file hfile
        obtain rfl := Option.some.inj hfile
        exact Nat.zero_le _
      · rintro _ _ file hfile
        obtain rfl := Option.some.inj hfile
        exact List.nil_prefix
      · intro b hb
        obtain rfl := Option.some.inj (ha.symm.trans hb)
        rw [hphase, hzero]
        exact ⟨Nat.zero_le _, fun i hi => absurd hi (Nat.not_lt_zero i)⟩
    refine hgoTo _ hempty rfl _ ?_
    split_ifs with hparts
    · exact ⟨rfl, hparts⟩
    · exact copying_wholePart rfl ⟨Nat.zero_le _, fun i hi => absurd hi (Nat.not_lt_zero i)⟩
  · obtain ⟨file, hfile, _⟩ := hknown.2 0 (Nat.pos_of_ne_zero hzero)
    have hsame : some (s.staging.getD []) = s.staging := by
      rw [Option.mem_def.mp hfile]
      rfl
    rw [hsame]
    exact hgoTo s h rfl _ (copying_wholePart (Option.isSome_iff_exists.mpr ⟨file, hfile⟩) hknown)

theorem length_presized_le {total : ℕ} {file : Bytes} (h : file.length ≤ total) :
    (presized total direction file).length ≤ total := by
  cases direction with
  | upload => exact h
  | download => exact Nat.le_of_eq (length_setLen total)

theorem Inv.presize (h : Inv source s) {parts : ℕ} {file : Bytes} (ha : s.attempt = some a)
    (hphase : a.phase = .presizing parts) (hfile : s.staging = some file) :
    Inv source ({ s with staging := some (presized source.length direction file) }.goTo a
      (.copying true (parallelParts source.length parts))) := by
  have hknown : s.staging.isSome ∧ 2 ≤ parts := by
    have hknown := h.phase a ha
    rwa [hphase] at hknown
  refine { h with gone := ?_, bounded := ?_, calm := ?_, phase := ?_ }
  · intro hnone
    cases hnone
  · intro file' hfile'
    obtain rfl := Option.some.inj hfile'
    exact length_presized_le (h.bounded file hfile)
  · intro _ hscattered
    exact absurd hscattered.symm Bool.false_ne_true
  · intro b hb
    obtain rfl := Option.some.inj hb
    have hnew : ∀ p ∈ parallelParts source.length parts, p.position = 0 ∧ p.counted = 0 := by
      intro p hp
      obtain ⟨index, _, rfl⟩ := List.mem_map.mp hp
      exact ⟨rfl, rfl⟩
    refine { opened := rfl, chained := chained_parallelParts (by omega), position_le := ?_,
             counted_le := ?_, reached := ?_ }
    · intro p hp
      rw [(hnew p hp).1]
      exact Nat.zero_le _
    · intro p hp
      rw [(hnew p hp).2]
      exact Nat.zero_le _
    · intro p hp i hlo hhi
      rw [(hnew p hp).1] at hhi
      omega

/-- A part that issues a write has reached the bytes of it. -/
theorem Inv.issueWrite (h : Inv source s) {parallel : Bool} {parts : List Part} {part bytes : ℕ}
    (ha : s.attempt = some a) (hphase : a.phase = .copying parallel parts)
    (hissue : issueWrite source s a parallel parts part bytes = some s') : Inv source s' := by
  have hknown : Copying source s a.id parts := by
    have hknown := h.phase a ha
    rwa [hphase] at hknown
  unfold Resume.issueWrite at hissue
  split at hissue
  · cases hissue
  · rename_i p hp
    have hmem : p ∈ parts := List.mem_of_getElem? hp
    split_ifs at hissue with hfits
    obtain rfl := Option.some.inj hissue
    have hend := hknown.chained.part_le hmem
    have hpiece : Piece source (p.start + p.position)
        ((source.drop (p.start + p.position)).take bytes) := piece_take_drop (by omega)
    have hlen : ((source.drop (p.start + p.position)).take bytes).length = bytes := by
      rw [List.length_take, List.length_drop]
      omega
    have hold : ∀ id i, Reached source s id i → Reached source
        { s with pending := s.pending ++ [⟨a.id, p.start + p.position,
          (source.drop (p.start + p.position)).take bytes⟩] } id i := by
      rintro id i (hcopied | ⟨write, hwrite, hcovers⟩)
      · exact .inl hcopied
      · refine .inr ⟨write, ?_, hcovers⟩
        rcases List.mem_append.mp hwrite with hpending | hlost
        · exact List.mem_append_left _ (List.mem_append_left _ hpending)
        · exact List.mem_append_right _ hlost
    refine { h with pieces := ?_, gone := ?_, calm := ?_, phase := ?_ }
    · intro write hwrite
      rcases List.mem_append.mp hwrite with hpending | hnew
      · exact h.pieces write hpending
      · obtain rfl := List.mem_singleton.mp hnew
        exact hpiece
    · intro hnone
      have hsome := hknown.opened
      rw [show s.staging = none from hnone] at hsome
      cases hsome
    · intro htorn hscattered
      refine h.calm htorn ?_
      rw [State.scattered, ha]
      simpa [State.scattered, State.goTo, hphase] using hscattered
    · intro b hb
      obtain rfl := Option.some.inj hb
      refine { opened := hknown.opened, chained := hknown.chained.modify (by simp) part,
               position_le := ?_, counted_le := ?_, reached := ?_ }
      · intro q hq
        rcases mem_modify hq with hq | ⟨before, hbefore, rfl⟩
        · exact hknown.position_le q hq
        · obtain rfl := Option.some.inj (hp.symm.trans hbefore)
          exact hfits.2
      · intro q hq
        rcases mem_modify hq with hq | ⟨before, hbefore, rfl⟩
        · exact hknown.counted_le q hq
        · obtain rfl := Option.some.inj (hp.symm.trans hbefore)
          exact (hknown.counted_le p hmem).trans (Nat.le_add_right _ _)
      · intro q hq i hlo hhi
        rcases mem_modify hq with hq | ⟨before, hbefore, rfl⟩
        · exact hold a.id i (hknown.reached q hq i hlo hhi)
        · obtain rfl := Option.some.inj (hp.symm.trans hbefore)
          by_cases hbehind : i < p.start + p.position
          · exact hold a.id i (hknown.reached p hmem i hlo hbehind)
          · have hcovers : i < p.start + p.position +
                ((source.drop (p.start + p.position)).take bytes).length := by
              have : i < p.start + (p.position + bytes) := hhi
              omega
            exact .inr ⟨_, List.mem_append_left _ (List.mem_append_right _ List.mem_cons_self),
              rfl, Nat.le_of_not_lt hbehind, hcovers⟩

theorem Copying.count {id : ℕ} {parts : List Part} (h : Copying source s id parts) (part : ℕ) :
    Copying source s id (parts.modify part fun p => { p with counted := p.position }) where
  opened := h.opened
  chained := h.chained.modify (by simp) part
  position_le := by
    intro q hq
    rcases mem_modify hq with hq | ⟨p, hp, rfl⟩
    · exact h.position_le q hq
    · exact h.position_le p (List.mem_of_getElem? hp)
  counted_le := by
    intro q hq
    rcases mem_modify hq with hq | ⟨p, hp, rfl⟩
    · exact h.counted_le q hq
    · exact Nat.le_refl p.position
  reached := by
    intro q hq
    rcases mem_modify hq with hq | ⟨p, hp, rfl⟩
    · exact h.reached q hq
    · exact h.reached p (List.mem_of_getElem? hp)

/-- **A copy that is complete and flushed is the source.** -/
theorem Copying.complete {parts : List Part} (h : Copying source s a.id parts)
    (hbounded : ∀ file ∈ s.staging, file.length ≤ source.length)
    (hdone : ∀ p ∈ parts, p.position = p.len) (hflushed : s.Flushed a) :
    s.staging = some source := by
  obtain ⟨file, hfile⟩ := Option.isSome_iff_exists.mp h.opened
  have hsource : file = source := by
    refine eq_of_copied (hbounded file hfile) fun i hi => ?_
    obtain ⟨p, hp, hlo, hhi⟩ := exists_part h.chained (Nat.zero_le i) hi
    rw [← hdone p hp] at hhi
    rcases h.reached p hp i hlo hhi with ⟨file', hfile', hcopied⟩ | ⟨write, hwrite, hid, _⟩
    · obtain rfl := Option.some.inj (hfile.symm.trans hfile')
      exact hcopied
    · exact absurd hid (hflushed write hwrite)
  rw [hfile, hsource]

/-- **A parallel copy cut to its contiguous prefix is a prefix of the source**, when the
writes below have taken effect. -/
theorem Copying.truncated {parts : List Part} {file : Bytes} (h : Copying source s a.id parts)
    (hfile : s.staging = some file) (hnone : s.owes a (contiguousParallelPrefix parts) = false) :
    setLen 0 file (contiguousParallelPrefix parts) <+: source := by
  have hle := prefix_le h.chained
  refine setLen_prefix (by omega) fun i hi => ?_
  obtain ⟨p, hp, hlo, hhi⟩ := covered_of_lt_prefix h.chained (Nat.zero_le i) (by omega)
  have hcounted := h.counted_le p hp
  rcases h.reached p hp i hlo (by omega) with ⟨file', hfile', hcopied⟩ |
    ⟨write, hwrite, hid, hlow, _⟩
  · obtain rfl := Option.some.inj (hfile.symm.trans hfile')
    exact hcopied
  · have howes := List.any_eq_false.mp hnone write hwrite
    rw [Bool.and_eq_true, decide_eq_true_iff, decide_eq_true_iff] at howes
    exact absurd ⟨hid, by omega⟩ howes

/-- The truncation of the staging file keeps the invariant. -/
theorem Inv.truncate (h : Inv source s) {parts : List Part} {file : Bytes}
    (hknown : Copying source s a.id parts) (hfile : s.staging = some file) :
    Inv source (truncateStaging s a parts file) := by
  refine { h with gone := ?_, bounded := ?_, calm := ?_, phase := fun b hb => by cases hb }
  · intro hnone
    cases hnone
  · intro file' hfile'
    obtain rfl := Option.some.inj hfile'
    rw [length_setLen]
    have := prefix_le hknown.chained
    omega
  · intro htorn _ file' hfile'
    obtain rfl := Option.some.inj hfile'
    exact hknown.truncated hfile htorn

theorem scattered_of_attempt (ha : s.attempt = some a) {phase : Phase} (hphase : a.phase = phase) :
    s.scattered = (s.goTo a phase).scattered := by
  rw [State.scattered, State.scattered, ha, ← hphase]
  rfl

/-- **A step of an attempt keeps the invariant.** -/
theorem attemptStep_inv (h : Inv source s) (ha : s.attempt = some a) {event : Event}
    (horderly : Orderly source s event)
    (hstep : attemptStep direction source s a a.phase event = some s') : Inv source s' := by
  have hknown := h.phase a ha
  have hremoved : ∀ {commits : List Bytes}, (∀ file ∈ commits, file = source) →
      Inv source { s.removed with attempt := none, commits := commits } := by
    intro commits hcommits
    exact h.removed (fun b hb => by cases hb) hcommits
  unfold attemptStep at hstep
  split at hstep
  all_goals rename_i hphase
  · obtain rfl := Option.some.inj hstep
    exact h.prepare ha hphase (horderly.imp id fun hzero => hzero a ha)
  · obtain rfl := Option.some.inj hstep
    exact h.openStaging ha hphase
  · obtain ⟨file, hfile, rfl⟩ := Option.map_eq_some_iff.mp hstep
    exact h.presize ha hphase hfile
  · exact h.issueWrite ha hphase hstep
  · obtain rfl := Option.some.inj hstep
    rw [hphase] at hknown
    refine h.goTo (hknown.count _) fun _ hbefore hafter => ?_
    rw [scattered_of_attempt ha hphase] at hbefore
    exact absurd (hbefore.symm.trans hafter) Bool.noConfusion
  · split_ifs at hstep with hdone
    obtain rfl := Option.some.inj hstep
    rw [hphase] at hknown
    have hsource := hknown.complete h.bounded hdone.1 hdone.2
    refine h.goTo hsource fun _ _ _ file hfile => ?_
    obtain rfl := Option.some.inj (hsource.symm.trans hfile)
    exact List.prefix_refl source
  · obtain rfl := Option.some.inj hstep
    rw [hphase] at hknown
    exact h.goTo hknown fun _ _ hafter => absurd hafter Bool.noConfusion
  · obtain ⟨file, hfile, rfl⟩ := Option.map_eq_some_iff.mp hstep
    rw [hphase] at hknown
    exact h.truncate hknown hfile
  · obtain rfl := Option.some.inj hstep
    exact h.goTo trivial fun _ _ hafter => absurd hafter Bool.noConfusion
  · obtain rfl := Option.some.inj hstep
    exact hremoved h.commits
  · obtain rfl := Option.some.inj hstep
    exact h.left
  · obtain ⟨file, hfile, rfl⟩ := Option.map_eq_some_iff.mp hstep
    split_ifs
    · rw [hphase] at hknown
      refine h.goTo hknown fun _ hbefore _ => ?_
      rw [scattered_of_attempt ha hphase] at hbefore
      exact absurd hbefore Bool.noConfusion
    · exact h.left
  · obtain ⟨file, hfile, rfl⟩ := Option.map_eq_some_iff.mp hstep
    rw [hphase] at hknown
    obtain rfl := Option.some.inj (hfile.symm.trans hknown)
    exact hremoved (List.forall_mem_cons.mpr ⟨rfl, h.commits⟩)
  · split_ifs at hstep
    obtain rfl := Option.some.inj hstep
    exact hremoved h.commits
  -- The attempt fails, is aborted without a removal, or dies.
  all_goals first
    | exact Option.some.inj hstep ▸ h.left
    | cases hstep

/-- **Each step keeps the invariant**, when no attempt resumes from a torn file. -/
theorem step_inv {event : Event} (h : Inv source s) (horderly : Orderly source s event)
    (hstep : step direction source s event = some s') : Inv source s' := by
  unfold step at hstep
  split at hstep
  · split at hstep
    · cases hstep
    · obtain rfl := Option.some.inj hstep
      refine { h with calm := fun htorn _ => h.calm htorn ?_, phase := fun a ha => ?_ }
      · rw [State.scattered, ‹s.attempt = none›]
        rfl
      · obtain rfl := Option.some.inj ha
        trivial
  · split_ifs at hstep with hwrite
    obtain rfl := Option.some.inj hstep
    exact h.performWrite hwrite
  · split_ifs at hstep
    obtain rfl := Option.some.inj hstep
    exact h.loseWrite _
  · split at hstep
    · cases hstep
    · exact attemptStep_inv h ‹_› horderly hstep

end Invariants

/-- **Resume safety.**  When no attempt resumes from a torn file, what is committed is the
source, and a file that is resumed from holds the bytes of the source in front of the
position. -/
theorem resume_safe {events : List Event} {s : State}
    (horderly : (transfer direction source).Meets (Orderly source) events)
    (h : (transfer direction source).run events = some s) :
    (∀ file ∈ s.commits, file = source) ∧
      ∀ r ∈ s.resumed, r.2 = source.take r.1 := by
  have hinit : Inv source (transfer direction source).init := by
    refine ⟨?_, fun _ => rfl, ?_, ?_, ?_, ?_, ?_⟩
    · exact List.forall_mem_nil _
    · intro file hfile
      cases hfile
    · intro _ _ file hfile
      cases hfile
    · intro a ha
      cases ha
    · exact List.forall_mem_nil _
    · exact List.forall_mem_nil _
  have hstep : ∀ s event s', Inv source s → Orderly source s event →
      (transfer direction source).step s event = some s' → Inv source s' :=
    fun _ _ _ hI hok h => step_inv hI hok h
  have hinv : Inv source s := Machine.run_invariant_of hinit hstep horderly h
  refine ⟨hinv.commits, fun r hr => ?_⟩
  obtain ⟨hfront, hlen⟩ := hinv.resumed r hr
  rw [← hlen]
  exact List.prefix_iff_eq_take.mp hfront

/-- An attempt that resumes and finds nothing to copy. -/
def resumeAndCommit : List Event :=
  [.start true, .prepare, .openFile, .finish, .verify, .commit]

/-- **A staging file of the full length is committed as it is**, whatever it holds, when no
write of an earlier attempt is on its way. -/
theorem resume_commits_full {source : Bytes} {s : State} {file : Bytes}
    (hattempt : s.attempt = none)
    (hstaging : s.staging = some file) (hlen : file.length = source.length) (hne : file ≠ [])
    (hpending : s.pending = []) (hlost : s.lost = []) :
    ∃ s', (transfer direction source).runFrom s resumeAndCommit = some s' ∧
      s'.commits = file :: s.commits := by
  have hpositive : source.length ≠ 0 := by
    rw [← hlen]
    exact fun hzero => hne (List.eq_nil_of_length_eq_zero hzero)
  have hflushed : ∀ s' : State, ∀ a, s'.pending = [] → s'.lost = [] → s'.Flushed a := by
    intro s' a hpending hlost
    rw [State.Flushed, hpending, hlost]
    exact List.forall_mem_nil _
  simp [resumeAndCommit, transfer, step, attemptStep, prepare, prepareStaging, openStaging,
    State.goTo, State.removed, wholePart, hattempt, hstaging, hlen, hpositive, hflushed,
      hpending, hlost]

/-- A download of more than one part ends before its first write has taken effect. -/
def presizedOnly : List Event :=
  [.start false, .prepare, .openFile, .presize, .die]

/-- **A download that ends in the middle of its parallel copy commits zeros**, when it is
resumed: the staging file has had its full length from the start. -/
theorem presized_commits_zeros {source : Bytes} (h : parallelDownloadThreshold ≤ source.length) :
    ∃ s, (transfer .download source).run (presizedOnly ++ resumeAndCommit) = some s ∧
      s.commits = [List.replicate source.length 0] := by
  have htwo : 2 ≤ parallelDownloadThreshold := by decide
  have hparts : 2 ≤ transferWorkerParts .download false source.length := by
    have hsome : ¬(false = true ∨ source.length = 0) := by
      rintro (hfalse | hzero)
      · cases hfalse
      · omega
    rw [transferWorkerParts, if_neg hsome, configuredParts, if_pos h, parallelDownloadParts,
      maxSftpTransferConcurrency]
    omega
  have hfile : setLen 0 [] source.length = List.replicate source.length (0 : UInt8) := by
    rw [setLen, List.take_nil, List.nil_append, List.length_nil, Nat.sub_zero]
  obtain ⟨s, hfirst, hstaging, hcalm⟩ : ∃ s,
      (transfer .download source).run presizedOnly = some s ∧
        s.staging = some (List.replicate source.length 0) ∧
        s.attempt = none ∧ s.pending = [] ∧ s.lost = [] ∧ s.commits = [] := by
    simp [presizedOnly, Machine.run, transfer, step, attemptStep, prepare, prepareStaging,
      openStaging, presized, hparts, hfile, State.goTo, State.removed, State.left]
  obtain ⟨hattempt, hpending, hlost, hcommits⟩ := hcalm
  have hne : List.replicate source.length (0 : UInt8) ≠ [] := by
    rw [Ne, List.replicate_eq_nil_iff]
    omega
  obtain ⟨s', hsecond, hcommitted⟩ :=
    resume_commits_full .download hattempt hstaging List.length_replicate hne
      hpending hlost
  refine ⟨s', ?_, ?_⟩
  · rw [Machine.run, Machine.runFrom_append, ← Machine.run, hfirst]
    exact hsecond
  · rw [hcommitted, hcommits]

/-- A source of 16 MiB of which the download ends so is not what is committed. -/
theorem resume_unsafe :
    ∃ s, (transfer .download (List.replicate parallelDownloadThreshold 1)).run
        (presizedOnly ++ resumeAndCommit) = some s ∧
      ∃ file ∈ s.commits, file ≠ List.replicate parallelDownloadThreshold 1 := by
  have hlen : (List.replicate parallelDownloadThreshold (1 : UInt8)).length =
      parallelDownloadThreshold := List.length_replicate
  obtain ⟨s, hrun, hcommits⟩ := presized_commits_zeros (Nat.le_of_eq hlen.symm)
  rw [hlen] at hcommits
  refine ⟨s, hrun, _, hcommits ▸ List.mem_cons_self, fun hsame => ?_⟩
  rw [List.replicate_inj] at hsame
  rcases hsame.2 with hzero | hbytes
  · exact absurd hzero (by decide)
  · exact absurd hbytes (by decide)

/-- The source of the interrupted transfer. -/
def sixBytes : Bytes := [1, 2, 3, 4, 5, 6]

/-- A transfer on one handle: a first attempt loses its last write, and a second one resumes
behind the bytes that were written. -/
def interruptedTransfer : List Event :=
  [.start false, .prepare, .openFile, .issue 0 4, .issue 0 2, .perform ⟨0, 0, [1, 2, 3, 4]⟩,
    .lose ⟨0, 4, [5, 6]⟩, .fail,
    .start true, .prepare, .openFile, .issue 0 2, .perform ⟨1, 4, [5, 6]⟩, .finish,
      .verify, .commit]

/-- The interrupted transfer resumes and commits its source. -/
theorem resume_safe_interruptedTransfer :
    ∃ s, (transfer .upload sixBytes).run interruptedTransfer = some s ∧
      s.commits = [sixBytes] ∧ s.resumed = [(4, [1, 2, 3, 4])] ∧
      (∀ file ∈ s.commits, file = sixBytes) ∧ ∀ r ∈ s.resumed, r.2 = sixBytes.take r.1 := by
  have hmeets : (transfer .upload sixBytes).Meets (Orderly sixBytes) interruptedTransfer := by
    decide
  exact ⟨_, rfl, rfl, rfl, resume_safe .upload sixBytes hmeets rfl⟩

end Resume
end Transfer
end HelmSsh
