/-
# A commit that must not overwrite

`replace_remote_file` of `src-tauri/src/remote/runtime_sftp.rs` with the script of
`build_remote_replace_command` (`sftp.rs`), and `sync_and_replace_local` of
`src-tauri/src/remote/transfer.rs` with `move_file_no_replace_async` of
`src-tauri/src/atomic_file.rs`, both without `overwrite`.  Each of their calls is a step of its
own, and between two of them another program may create something at the target.

A path has no links but in its last component.  `ln` looks at the target first: where that leads
to a directory, it makes the link inside.

* `Inv.step` — up to that link nothing at the target is touched, and then the target is the staged
  file.
* `commit_without_overwrite` — so a remote commit is safe exactly when no link is made inside of a
  directory, and a local one is always safe.
-/

import HelmSsh.Machine
import Mathlib.Logic.Function.Basic

namespace HelmSsh
namespace Remote
namespace NoOverwriteCommit

abbrev Path := List String

/-- What may stand at a path.  A file is known by its inode. -/
inductive Node
  | file (inode : ℕ)
  | directory
  | symlink (dest : Path)
  | other
deriving DecidableEq

abbrev Files := Path → Option Node

/-- Where the path leads when so many links are followed. -/
def resolve (files : Files) : ℕ → Path → Option Path
  | 0, _ => none
  | links + 1, path =>
    match files path with
    | none => none
    | some (.symlink dest) => resolve files links dest
    | some _ => some path

/-- Where the path leads. -/
def leads (files : Files) (path : Path) : Option Path :=
  resolve files 40 path

/-- `[ -L path ]`. -/
def isLink (files : Files) (path : Path) : Bool :=
  match files path with
  | some (.symlink _) => true
  | _ => false

/-- `[ -e path ]`. -/
def isThere (files : Files) (path : Path) : Bool :=
  (leads files path).isSome

/-- The directory that the path leads to. -/
def directoryAt (files : Files) (path : Path) : Option Path :=
  (leads files path).filter fun place => files place = some .directory

/-- A regular file that is not reached by a link: `[ -f path ] && [ ! -L path ]`. -/
def isPlainFile (files : Files) (path : Path) : Bool :=
  match files path with
  | some (.file _) => true
  | _ => false

/-- A staged file beside its target. -/
structure Setup where
  parent : Path
  stagingName : String
  targetName : String
  distinct : stagingName ≠ targetName
  files : Files
  inode : ℕ
  staged : files (parent ++ [stagingName]) = some (.file inode)

def Setup.staging (S : Setup) : Path := S.parent ++ [S.stagingName]
def Setup.target (S : Setup) : Path := S.parent ++ [S.targetName]

/-- What the caller is told. -/
inductive Outcome
  | ok
  | needsOverwrite
  | error
deriving DecidableEq

/-- The files, the next call (none is left at the end), what the caller was told, and whether
something that stood at the target was changed. -/
structure State (φ : Type) where
  files : Files
  phase : Option φ
  answer : Option Outcome
  harmed : Bool

namespace State

variable {φ : Type}

/-- The calls go on. -/
def goTo (s : State φ) (phase : φ) : State φ :=
  { s with phase := some phase }

/-- The calls end, and the caller is told if it still waits. -/
def finish (s : State φ) (outcome : Outcome) : State φ :=
  { s with phase := none, answer := s.answer.or (some outcome) }

/-- Something is written at the path, or taken away.  That changes what stands at the target when it
is the target or an entry of the directory that it leads to. -/
def write (s : State φ) (S : Setup) (path : Path) (node : Option Node) : State φ :=
  { s with
    files := Function.update s.files path node
    harmed := s.harmed || ((s.files S.target).isSome && path = S.target) ||
      leads s.files S.target = some path.dropLast }

end State

/-- What happens.  A call fails for reasons of its own (`fault`); the caller stops waiting for the
script, which goes on; the calls are stopped. -/
inductive Event
  | create (node : Node)
  | go (fault : Bool)
  | giveUp
  | stop

/-! ### The remote commit -/

/-- The next call of `replace_remote_file`, or of its script. -/
inductive RemotePhase
  | stagingMetadata
  | targetMetadata
  | tryExists
  | testStaging
  | testTargetLink
  | testTarget
  | touch
  | ln
  | link (dest : Path)
  | rm
  | testLinkAgain
  | testTargetAgain
deriving DecidableEq

/-- The call is one of the script. -/
def RemotePhase.inScript : RemotePhase → Bool
  | .stagingMetadata | .targetMetadata | .tryExists => false
  | _ => true

/-- One call. -/
def remoteCall (S : Setup) (s : State RemotePhase) (fault : Bool) :
    RemotePhase → State RemotePhase
  | .stagingMetadata =>
    if fault || !isPlainFile s.files S.staging then s.finish .error else s.goTo .targetMetadata
  | .targetMetadata =>
    match if fault then none else s.files S.target with
    | none => s.goTo .tryExists
    | some (.file _) => s.finish .needsOverwrite
    | some _ => s.finish .error
  | .tryExists =>
    if fault || isThere s.files S.target then s.finish .error else s.goTo .testStaging
  | .testStaging =>
    if fault || !isPlainFile s.files S.staging then s.finish .error else s.goTo .testTargetLink
  | .testTargetLink =>
    if isLink s.files S.target then s.finish .error else s.goTo .testTarget
  | .testTarget =>
    if isThere s.files S.target then s.finish .needsOverwrite else s.goTo .touch
  | .touch => if fault then s.finish .error else s.goTo .ln
  | .ln =>
    match directoryAt s.files S.target with
    | some directory => s.goTo (.link (directory ++ [S.stagingName]))
    | none => s.goTo (.link S.target)
  | .link dest =>
    if fault || (s.files dest).isSome then s.goTo .testLinkAgain
    else (s.write S dest (s.files S.staging)).goTo .rm
  | .rm => if fault then s.finish .ok else (s.write S S.staging none).finish .ok
  | .testLinkAgain =>
    if isLink s.files S.target then s.finish .error else s.goTo .testTargetAgain
  | .testTargetAgain =>
    if isThere s.files S.target then s.finish .needsOverwrite else s.finish .error

/-- One event of a remote commit. -/
def remoteStep (S : Setup) (s : State RemotePhase) (e : Event) : Option (State RemotePhase) :=
  match e, s.phase with
  | .create node, _ =>
    if (s.files S.target).isSome then none
    else some { s with files := Function.update s.files S.target (some node) }
  | _, none => none
  | .go fault, some phase => some (remoteCall S s fault phase)
  | .giveUp, some phase =>
    if phase.inScript then some { s with answer := s.answer.or (some .error) } else none
  | .stop, some _ => some (s.finish .error)

/-- A remote commit. -/
def remoteCommit (S : Setup) : Machine (State RemotePhase) Event where
  init := { files := S.files, phase := some .stagingMetadata, answer := none, harmed := false }
  step := remoteStep S

/-! ### The local commit -/

/-- The next call of `sync_and_replace_local`. -/
inductive LocalPhase
  | openStaging
  | syncAll
  | hardLink
  | removeFile
  | moveFile
  | symlinkMetadata
deriving DecidableEq

/-- One call.  Windows moves the file, other systems link and remove it. -/
def localCall (S : Setup) (windows : Bool) (s : State LocalPhase) (fault : Bool) :
    LocalPhase → State LocalPhase
  | .openStaging => if fault then s.finish .error else s.goTo .syncAll
  | .syncAll =>
    if fault then s.finish .error
    else s.goTo (if windows then .moveFile else .hardLink)
  | .hardLink =>
    if fault || (s.files S.target).isSome then s.goTo .symlinkMetadata
    else (s.write S S.target (s.files S.staging)).goTo .removeFile
  | .removeFile =>
    if fault then s.goTo .symlinkMetadata else (s.write S S.staging none).finish .ok
  | .moveFile =>
    if fault || (s.files S.target).isSome then s.goTo .symlinkMetadata
    else ((s.write S S.target (s.files S.staging)).write S S.staging none).finish .ok
  | .symlinkMetadata =>
    if !fault && (s.files S.target).isSome then s.finish .needsOverwrite else s.finish .error

/-- One event of a local commit, which is waited for to its end. -/
def localStep (S : Setup) (windows : Bool) (s : State LocalPhase) (e : Event) :
    Option (State LocalPhase) :=
  match e, s.phase with
  | .create node, _ =>
    if (s.files S.target).isSome then none
    else some { s with files := Function.update s.files S.target (some node) }
  | .go fault, some phase => some (localCall S windows s fault phase)
  | .stop, some _ => some (s.finish .error)
  | _, _ => none

/-- A local commit. -/
def localCommit (S : Setup) (windows : Bool) : Machine (State LocalPhase) Event where
  init := { files := S.files, phase := some .openStaging, answer := none, harmed := false }
  step := localStep S windows

/-! ### What is asked for -/

/-- Nothing that stood at the target was changed; success means that the target is the staged file;
the staged file is at its place or at the target; and at the end the caller was told. -/
structure Safe {φ : Type} (S : Setup) (s : State φ) : Prop where
  unharmed : s.harmed = false
  success : s.answer = some .ok → s.files S.target = some (.file S.inode)
  kept : s.files S.staging = some (.file S.inode) ∨ s.files S.target = some (.file S.inode)
  answered : s.phase = none → s.answer ≠ none

/-- The link is not made inside of a directory: it is made at the target, or it is not made because
that directory has an entry of its name. -/
def Undiverted (S : Setup) (s : State RemotePhase) : Event → Prop
  | .go false => ∀ dest, s.phase = some (.link dest) → dest = S.target ∨ s.files dest ≠ none
  | _ => True

/-! ### The paths -/

section Paths

variable {S : Setup} {files : Files} {path : Path}

theorem Setup.staging_ne_target (S : Setup) : S.staging ≠ S.target := fun h =>
  S.distinct (List.singleton_inj.mp (List.append_cancel_left h))

theorem Setup.dropLast_staging_ne (S : Setup) : S.target ≠ S.staging.dropLast := by
  rw [Setup.staging, Setup.target, List.dropLast_concat]
  exact fun h => List.cons_ne_nil _ _ (List.append_right_eq_self.mp h)

theorem leads_of_none (h : files path = none) : leads files path = none := by
  rw [leads, resolve, h]

theorem leads_of_file {inode : ℕ} (h : files path = some (.file inode)) :
    leads files path = some path := by
  rw [leads, resolve, h]

theorem update_target_staging (node : Option Node) :
    Function.update files S.target node S.staging = files S.staging :=
  Function.update_of_ne S.staging_ne_target _ _

theorem update_staging_target (node : Option Node) :
    Function.update files S.staging node S.target = files S.target :=
  Function.update_of_ne S.staging_ne_target.symm _ _

end Paths

/-! ### Before the link -/

section Steps

variable {φ : Type} {S : Setup}

/-- The staged file is at its place, nothing was changed, and nobody was told of success. -/
structure Before (S : Setup) (s : State φ) : Prop where
  staged : s.files S.staging = some (.file S.inode)
  unharmed : s.harmed = false
  waits : s.answer ≠ some .ok

/-- The calls are over: the caller was told, and of success only when the target is the staged
file. -/
structure Over (S : Setup) (s : State φ) : Prop where
  answered : s.answer ≠ none
  success : s.harmed = false → s.answer = some .ok → s.files S.target = some (.file S.inode)
  kept : s.harmed = false →
    s.files S.staging = some (.file S.inode) ∨ s.files S.target = some (.file S.inode)

theorem Before.goTo {s : State φ} (h : Before S s) (phase : φ) : Before S (s.goTo phase) :=
  ⟨h.staged, h.unharmed, h.waits⟩

theorem Before.finish {s : State φ} (h : Before S s) {outcome : Outcome} (hno : outcome ≠ .ok) :
    Over S (s.finish outcome) where
  answered := by
    rw [State.finish]
    cases s.answer with
    | none => exact Option.some_ne_none _
    | some _ => exact Option.some_ne_none _
  success _ hok := by
    rw [State.finish] at hok
    cases hanswer : s.answer with
    | none =>
      rw [hanswer] at hok
      exact absurd (Option.some.inj hok) hno
    | some told =>
      rw [hanswer] at hok
      exact absurd (hanswer.trans hok) h.waits
  kept _ := Or.inl h.staged

theorem Before.create {s : State φ} (h : Before S s) (node : Node) :
    Before S { s with files := Function.update s.files S.target (some node) } :=
  ⟨(update_target_staging _).trans h.staged, h.unharmed, h.waits⟩

theorem Over.create {s : State φ} (h : Over S s) (hnone : s.files S.target = none)
    (node : Node) : Over S { s with files := Function.update s.files S.target (some node) } where
  answered := h.answered
  success hunharmed hok := by
    cases hnone.symm.trans (h.success hunharmed hok)
  kept hunharmed := by
    refine Or.inl ((update_target_staging _).trans ?_)
    refine (h.kept hunharmed).resolve_right fun hfile => ?_
    cases hnone.symm.trans hfile

/-- The file is linked at the target: nothing stood there. -/
theorem Before.linkTarget {s : State φ} (h : Before S s) (hnone : s.files S.target = none) :
    (s.write S S.target (s.files S.staging)).harmed = false ∧
      (s.write S S.target (s.files S.staging)).files S.staging = some (.file S.inode) ∧
      (s.write S S.target (s.files S.staging)).files S.target = some (.file S.inode) := by
  refine ⟨?_, (update_target_staging _).trans h.staged, ?_⟩
  · rw [State.write, h.unharmed, hnone, leads_of_none hnone]
    rfl
  · exact (Function.update_self ..).trans h.staged

theorem write_staging_harmed {s : State φ} (h : s.files S.target = some (.file S.inode)) :
    (s.write S S.staging none).harmed = s.harmed := by
  have hstaging : decide (S.staging = S.target) = false := decide_eq_false S.staging_ne_target
  have hinside : decide (some S.target = some S.staging.dropLast) = false :=
    decide_eq_false fun heq => S.dropLast_staging_ne (Option.some.inj heq)
  rw [State.write, hstaging, leads_of_file h, hinside, Bool.and_false, Bool.or_false, Bool.or_false]

end Steps

/-! ### The remote steps -/

section Remote

variable {S : Setup} {s s' : State RemotePhase}

/-- What holds at each call of a remote commit. -/
def RemoteInv (S : Setup) (s : State RemotePhase) : Prop :=
  match s.phase with
  | none => Over S s
  | some (.link dest) =>
    Before S s ∧ (dest = S.target ∨ leads s.files S.target = some dest.dropLast)
  | some .rm =>
    s.files S.staging = some (.file S.inode) ∧ s.answer ≠ some .ok ∧
      (s.harmed = false → s.files S.target = some (.file S.inode))
  | some _ => Before S s

theorem undiverted_of {e : Event} (h : ∀ dest, s.phase ≠ some (.link dest)) : Undiverted S s e := by
  cases e with
  | go fault =>
    cases fault with
    | false => exact fun dest hphase => absurd hphase (h dest)
    | true => exact trivial
  | create _ => exact trivial
  | giveUp => exact trivial
  | stop => exact trivial

/-- **A call before the link** ends the commit or goes on, and touches nothing. -/
theorem Before.remoteCall (h : Before S s) {phase : RemotePhase} (fault : Bool)
    (hlink : ∀ dest, phase ≠ .link dest) (hrm : phase ≠ .rm) :
    RemoteInv S (remoteCall S s fault phase) ∧
      (NoOverwriteCommit.remoteCall S s fault phase).harmed = false := by
  have hfinish : ∀ outcome, outcome ≠ .ok →
      RemoteInv S (s.finish outcome) ∧ (s.finish outcome).harmed = false :=
    fun outcome hno => ⟨h.finish hno, h.unharmed⟩
  cases phase with
  | link dest => exact absurd rfl (hlink dest)
  | rm => exact absurd rfl hrm
  | stagingMetadata | tryExists | testStaging | testTargetLink | testTarget | touch
  | testLinkAgain =>
    rw [NoOverwriteCommit.remoteCall]
    split_ifs
    · exact hfinish _ (by decide)
    · exact ⟨h.goTo _, h.unharmed⟩
  | targetMetadata =>
    rw [NoOverwriteCommit.remoteCall]
    split
    · exact ⟨h.goTo _, h.unharmed⟩
    · exact hfinish _ (by decide)
    · exact hfinish _ (by decide)
  | ln =>
    rw [NoOverwriteCommit.remoteCall]
    split
    · rename_i directory hdirectory
      refine ⟨⟨h.goTo _, Or.inr ?_⟩, h.unharmed⟩
      rw [List.dropLast_concat]
      exact (Option.filter_eq_some_iff.mp hdirectory).1
    · exact ⟨⟨h.goTo _, Or.inl rfl⟩, h.unharmed⟩
  | testTargetAgain =>
    rw [NoOverwriteCommit.remoteCall]
    split_ifs
    · exact hfinish _ (by decide)
    · exact hfinish _ (by decide)

/-- **The link**: made at the target it leaves everything as it was, and made inside of a directory
it changes what stands there. -/
theorem Before.remoteLink (h : Before S s) {dest : Path} (hphase : s.phase = some (.link dest))
    (hdest : dest = S.target ∨ leads s.files S.target = some dest.dropLast) (fault : Bool) :
    RemoteInv S (NoOverwriteCommit.remoteCall S s fault (.link dest)) ∧
      ((NoOverwriteCommit.remoteCall S s fault (.link dest)).harmed = false ↔
        Undiverted S s (.go fault)) := by
  rw [NoOverwriteCommit.remoteCall]
  split_ifs with hfails
  · refine ⟨h.goTo _, iff_of_true h.unharmed ?_⟩
    cases fault with
    | true => exact trivial
    | false =>
      intro other hother
      obtain rfl := RemotePhase.link.inj (Option.some.inj (hphase.symm.trans hother))
      rw [Bool.false_or] at hfails
      exact Or.inr (Option.ne_none_iff_isSome.mpr hfails)
  · obtain ⟨hfault, hnone⟩ := not_or.mp (fun hor => hfails (Bool.or_eq_true_iff.mpr hor))
    have hnone := Option.not_isSome_iff_eq_none.mp hnone
    rw [Bool.eq_false_iff.mpr hfault]
    by_cases htarget : dest = S.target
    · subst htarget
      obtain ⟨hunharmed, hstaging, hlinked⟩ := h.linkTarget hnone
      refine ⟨⟨hstaging, h.waits, fun _ => hlinked⟩, iff_of_true hunharmed ?_⟩
      intro other hother
      exact Or.inl (RemotePhase.link.inj (Option.some.inj (hother.symm.trans hphase)))
    · have hleads := hdest.resolve_left htarget
      have hharmed : (s.write S dest (s.files S.staging)).harmed = true := by
        rw [State.write, decide_eq_true hleads]
        exact Bool.or_true _
      refine ⟨⟨?_, h.waits, fun hunharmed => absurd (hharmed.symm.trans hunharmed) (by decide)⟩, ?_⟩
      · have hstaging : S.staging ≠ dest := by
          rintro rfl
          cases hnone.symm.trans h.staged
        exact (Function.update_of_ne hstaging _ _).trans h.staged
      · refine iff_of_false (fun hunharmed => absurd (hharmed.symm.trans hunharmed) (by decide)) ?_
        intro hundiverted
        rcases hundiverted dest hphase with heq | hsome
        · exact htarget heq
        · exact hsome hnone

/-- **The staged file is taken away**, when its link is made. -/
theorem remoteInv_rm (h : RemoteInv S s) (hphase : s.phase = some .rm) (fault : Bool) :
    RemoteInv S (remoteCall S s fault .rm) ∧
      ((remoteCall S s fault .rm).harmed = false ↔ s.harmed = false) := by
  rw [RemoteInv, hphase] at h
  obtain ⟨hstaging, hwaits, hlinked⟩ := h
  have htold : ∀ answer : Option Outcome, answer.or (some .ok) ≠ none := by
    intro answer
    cases answer with
    | none => exact Option.some_ne_none _
    | some _ => exact Option.some_ne_none _
  rw [remoteCall]
  split_ifs
  · exact ⟨⟨htold _, fun hunharmed _ => hlinked hunharmed, fun _ => Or.inl hstaging⟩, Iff.rfl⟩
  · have hharmed : s.harmed = false → (s.write S S.staging none).harmed = false :=
      fun hunharmed => (write_staging_harmed (hlinked hunharmed)).trans hunharmed
    have hback : (s.write S S.staging none).harmed = false → s.harmed = false := by
      intro hunharmed
      rw [State.write, Bool.or_eq_false_iff, Bool.or_eq_false_iff] at hunharmed
      exact hunharmed.1.1
    have htarget : (s.write S S.staging none).harmed = false →
        (s.write S S.staging none).files S.target = some (.file S.inode) :=
      fun hunharmed => (update_staging_target _).trans (hlinked (hback hunharmed))
    exact ⟨⟨htold _, fun hunharmed _ => htarget hunharmed, fun hunharmed => Or.inr
      (htarget hunharmed)⟩, hback, hharmed⟩

/-- Before the calls are over and behind the link, what is known of the staged file. -/
theorem RemoteInv.before (h : RemoteInv S s) {phase : RemotePhase} (hphase : s.phase = some phase)
    (hrm : phase ≠ .rm) : Before S s := by
  rw [RemoteInv, hphase] at h
  cases phase with
  | rm => exact absurd rfl hrm
  | link dest => exact h.1
  | stagingMetadata | targetMetadata | tryExists | testStaging | testTargetLink | testTarget | touch
  | ln | testLinkAgain | testTargetAgain => exact h

theorem or_error_ne_ok {answer : Option Outcome} (h : answer ≠ some .ok) :
    answer.or (some .error) ≠ some .ok := by
  cases answer with
  | none => decide
  | some _ => exact h

theorem RemoteInv.create (h : RemoteInv S s) (hnone : s.files S.target = none) (node : Node) :
    RemoteInv S { s with files := Function.update s.files S.target (some node) } := by
  obtain ⟨files, phase, answer, harmed⟩ := s
  cases phase with
  | none => exact Over.create h hnone node
  | some phase =>
    by_cases hrm : phase = .rm
    · subst hrm
      obtain ⟨hstaging, hwaits, hlinked⟩ := h
      exact ⟨(update_target_staging _).trans hstaging, hwaits, fun hunharmed =>
        absurd (hnone.symm.trans (hlinked hunharmed)) (Option.some_ne_none _).symm⟩
    · have hbefore := (RemoteInv.before h rfl hrm).create node
      cases phase with
      | rm => exact absurd rfl hrm
      | link dest =>
        obtain ⟨-, hdest⟩ := h
        refine ⟨hbefore, Or.inl (hdest.resolve_right fun hleads => ?_)⟩
        cases (leads_of_none hnone).symm.trans hleads
      | stagingMetadata | targetMetadata | tryExists | testStaging | testTargetLink | testTarget
      | touch | ln | testLinkAgain | testTargetAgain => exact hbefore

theorem RemoteInv.giveUp (h : RemoteInv S s) {phase : RemotePhase} (hphase : s.phase = some phase) :
    RemoteInv S { s with answer := s.answer.or (some .error) } := by
  rw [RemoteInv, hphase] at h
  rw [RemoteInv, hphase]
  cases phase with
  | rm => exact ⟨h.1, or_error_ne_ok h.2.1, h.2.2⟩
  | link dest => exact ⟨⟨h.1.staged, h.1.unharmed, or_error_ne_ok h.1.waits⟩, h.2⟩
  | stagingMetadata | targetMetadata | tryExists | testStaging | testTargetLink | testTarget | touch
  | ln | testLinkAgain | testTargetAgain => exact ⟨h.staged, h.unharmed, or_error_ne_ok h.waits⟩

theorem RemoteInv.stop (h : RemoteInv S s) {phase : RemotePhase} (hphase : s.phase = some phase) :
    Over S (s.finish .error) := by
  by_cases hrm : phase = .rm
  · subst hrm
    rw [RemoteInv, hphase] at h
    obtain ⟨hstaging, hwaits, -⟩ := h
    refine ⟨?_, fun _ hok => absurd hok (or_error_ne_ok hwaits), fun _ => Or.inl hstaging⟩
    rw [State.finish]
    cases s.answer with
    | none => exact Option.some_ne_none _
    | some _ => exact Option.some_ne_none _
  · exact (h.before hphase hrm).finish (by decide)

/-- **Each event keeps what holds at the calls**, and nothing at the target is changed but by a
diverted link. -/
theorem RemoteInv.step (h : RemoteInv S s) {e : Event} (hstep : remoteStep S s e = some s') :
    RemoteInv S s' ∧ (s'.harmed = false ↔ s.harmed = false ∧ Undiverted S s e) := by
  unfold remoteStep at hstep
  split at hstep
  case h_1 _ node =>
    split_ifs at hstep with hthere
    obtain rfl := Option.some.inj hstep
    exact ⟨h.create (Option.not_isSome_iff_eq_none.mp hthere) node,
      (and_iff_left (trivial : Undiverted S s (.create node))).symm⟩
  case h_2 => cases hstep
  case h_3 fault phase hphase =>
    obtain rfl := Option.some.inj hstep
    by_cases hrm : phase = .rm
    · subst hrm
      obtain ⟨hinv, hharmed⟩ := remoteInv_rm h hphase fault
      refine ⟨hinv, hharmed.trans (and_iff_left (undiverted_of fun dest hdest => ?_)).symm⟩
      cases hphase.symm.trans hdest
    · have hbefore := h.before hphase hrm
      by_cases hlink : ∃ dest, phase = .link dest
      · obtain ⟨dest, rfl⟩ := hlink
        rw [RemoteInv, hphase] at h
        obtain ⟨hinv, hharmed⟩ := hbefore.remoteLink hphase h.2 fault
        exact ⟨hinv, hharmed.trans (and_iff_right hbefore.unharmed).symm⟩
      · have hno : ∀ dest, phase ≠ .link dest := fun dest heq => hlink ⟨dest, heq⟩
        obtain ⟨hinv, hunharmed⟩ := hbefore.remoteCall fault hno hrm
        refine ⟨hinv, iff_of_true hunharmed ⟨hbefore.unharmed, undiverted_of fun dest hdest => ?_⟩⟩
        exact hno dest (Option.some.inj (hphase.symm.trans hdest))
  case h_4 phase hphase =>
    split_ifs at hstep
    obtain rfl := Option.some.inj hstep
    exact ⟨h.giveUp hphase, (and_iff_left (trivial : Undiverted S s .giveUp)).symm⟩
  case h_5 phase hphase =>
    obtain rfl := Option.some.inj hstep
    exact ⟨h.stop hphase, (and_iff_left (trivial : Undiverted S s .stop)).symm⟩

/-- **A remote commit is safe when nothing at the target was changed.** -/
theorem RemoteInv.safe_iff (h : RemoteInv S s) : Safe S s ↔ s.harmed = false := by
  refine ⟨Safe.unharmed, fun hunharmed => ?_⟩
  cases hphase : s.phase with
  | none =>
    rw [RemoteInv, hphase] at h
    exact ⟨hunharmed, h.success hunharmed, h.kept hunharmed, fun _ => h.answered⟩
  | some phase =>
    have hgoes : s.phase = none → s.answer ≠ none := fun hnone => by cases hphase.symm.trans hnone
    by_cases hrm : phase = .rm
    · subst hrm
      rw [RemoteInv, hphase] at h
      exact ⟨hunharmed, fun hok => absurd hok h.2.1, Or.inl h.1, hgoes⟩
    · have hbefore := h.before hphase hrm
      exact ⟨hunharmed, fun hok => absurd hok hbefore.waits, Or.inl hbefore.staged, hgoes⟩

end Remote

/-! ### The local steps -/

section Local

variable {S : Setup} {windows : Bool} {s s' : State LocalPhase}

/-- What holds at each call of a local commit. -/
def LocalInv (S : Setup) (s : State LocalPhase) : Prop :=
  match s.phase with
  | none => s.harmed = false ∧ Over S s
  | some .removeFile => Before S s ∧ s.files S.target = some (.file S.inode)
  | some _ => Before S s

theorem LocalInv.before (h : LocalInv S s) {phase : LocalPhase} (hphase : s.phase = some phase) :
    Before S s := by
  rw [LocalInv, hphase] at h
  cases phase with
  | removeFile => exact h.1
  | openStaging | syncAll | hardLink | moveFile | symlinkMetadata => exact h

/-- The staged file is at the target only, and the caller is told of success. -/
theorem over_of_moved {s : State LocalPhase} (hunharmed : s.harmed = false)
    (htarget : s.files S.target = some (.file S.inode)) :
    LocalInv S ((s.write S S.staging none).finish .ok) := by
  have hfile := (update_staging_target none).trans htarget
  refine ⟨(write_staging_harmed htarget).trans hunharmed, ?_, fun _ _ => hfile, fun _ =>
    Or.inr hfile⟩
  rw [State.finish]
  dsimp only [State.write]
  cases s.answer with
  | none => exact Option.some_ne_none _
  | some _ => exact Option.some_ne_none _

/-- **One call of a local commit.** -/
theorem LocalInv.localCall (h : LocalInv S s) {phase : LocalPhase} (hphase : s.phase = some phase)
    (fault : Bool) : LocalInv S (localCall S windows s fault phase) := by
  have hbefore := h.before hphase
  have hfinish : ∀ outcome, outcome ≠ .ok → LocalInv S (s.finish outcome) :=
    fun outcome hno => ⟨hbefore.unharmed, hbefore.finish hno⟩
  have hcheck : LocalInv S (s.goTo .symlinkMetadata) := hbefore.goTo _
  cases phase with
  | openStaging =>
    rw [NoOverwriteCommit.localCall]
    split_ifs
    · exact hfinish _ (by decide)
    · exact hbefore.goTo _
  | syncAll =>
    rw [NoOverwriteCommit.localCall]
    split_ifs
    · exact hfinish _ (by decide)
    · exact hbefore.goTo _
    · exact hbefore.goTo _
  | hardLink =>
    rw [NoOverwriteCommit.localCall]
    split_ifs with hfails
    · exact hcheck
    · have hnone := Option.not_isSome_iff_eq_none.mp
        fun hthere => hfails (Bool.or_eq_true_iff.mpr (Or.inr hthere))
      obtain ⟨hunharmed, hstaging, hlinked⟩ := hbefore.linkTarget hnone
      exact ⟨⟨hstaging, hunharmed, hbefore.waits⟩, hlinked⟩
  | removeFile =>
    rw [LocalInv, hphase] at h
    rw [NoOverwriteCommit.localCall]
    split_ifs
    · exact hcheck
    · exact over_of_moved hbefore.unharmed h.2
  | moveFile =>
    rw [NoOverwriteCommit.localCall]
    split_ifs with hfails
    · exact hcheck
    · have hnone := Option.not_isSome_iff_eq_none.mp
        fun hthere => hfails (Bool.or_eq_true_iff.mpr (Or.inr hthere))
      obtain ⟨hunharmed, -, hlinked⟩ := hbefore.linkTarget hnone
      exact over_of_moved hunharmed hlinked
  | symlinkMetadata =>
    rw [NoOverwriteCommit.localCall]
    split_ifs
    · exact hfinish _ (by decide)
    · exact hfinish _ (by decide)

/-- **Each event keeps what holds at the calls.** -/
theorem LocalInv.step (h : LocalInv S s) {e : Event} (hstep : localStep S windows s e = some s') :
    LocalInv S s' := by
  unfold localStep at hstep
  split at hstep
  case h_1 _ node =>
    split_ifs at hstep with hthere
    obtain rfl := Option.some.inj hstep
    have hnone := Option.not_isSome_iff_eq_none.mp hthere
    obtain ⟨files, phase, answer, harmed⟩ := s
    cases phase with
    | none => exact ⟨h.1, Over.create h.2 hnone node⟩
    | some phase =>
      have hbefore := (LocalInv.before h rfl).create node
      cases phase with
      | removeFile => cases hnone.symm.trans h.2
      | openStaging | syncAll | hardLink | moveFile | symlinkMetadata => exact hbefore
  case h_2 fault phase hphase =>
    obtain rfl := Option.some.inj hstep
    exact h.localCall hphase fault
  case h_3 phase hphase =>
    obtain rfl := Option.some.inj hstep
    exact ⟨(h.before hphase).unharmed, (h.before hphase).finish (by decide)⟩
  case h_4 => cases hstep

theorem LocalInv.safe (h : LocalInv S s) : Safe S s := by
  cases hphase : s.phase with
  | none =>
    rw [LocalInv, hphase] at h
    exact ⟨h.1, h.2.success h.1, h.2.kept h.1, fun _ => h.2.answered⟩
  | some phase =>
    have hbefore := h.before hphase
    exact ⟨hbefore.unharmed, fun hok => absurd hok hbefore.waits, Or.inl hbefore.staged,
      fun hnone => by cases hphase.symm.trans hnone⟩

end Local

/-! ### The commits -/

/-- **A remote commit without `overwrite` is safe exactly when no link is made inside of a
directory**, in every run, **and a local one is always safe**. -/
theorem commit_without_overwrite (S : Setup) :
    (∀ as s, (remoteCommit S).run as = some s →
      (Safe S s ↔ (remoteCommit S).Meets (Undiverted S) as)) ∧
    ∀ windows as s, (localCommit S windows).run as = some s → Safe S s := by
  constructor
  · intro as s hrun
    have hinit : RemoteInv S (remoteCommit S).init :=
      ⟨S.staged, rfl, (Option.some_ne_none _).symm⟩
    have hkeep : ∀ s a s', RemoteInv S s → (remoteCommit S).step s a = some s' → RemoteInv S s' :=
      fun s a s' hI hstep => (RemoteInv.step hI hstep).1
    have hexact : ∀ s a s', RemoteInv S s → (remoteCommit S).step s a = some s' →
        (s'.harmed = false ↔ s.harmed = false ∧ Undiverted S s a) :=
      fun s a s' hI hstep => (RemoteInv.step hI hstep).2
    have hinv : RemoteInv S s := Machine.run_invariant hinit hkeep hrun
    refine hinv.safe_iff.trans ?_
    exact Machine.run_iff_meets (P := fun s => s.harmed = false) hinit rfl hkeep hexact hrun
  · intro windows as s hrun
    have hinit : LocalInv S (localCommit S windows).init :=
      ⟨S.staged, rfl, (Option.some_ne_none _).symm⟩
    have hkeep : ∀ s a s', LocalInv S s → (localCommit S windows).step s a = some s' →
        LocalInv S s' := fun s a s' hI hstep => LocalInv.step hI hstep
    have hinv : LocalInv S s := Machine.run_invariant hinit hkeep hrun
    exact hinv.safe

/-- A staged file in a directory where nothing else stands. -/
def alone : Setup where
  parent := ["srv"]
  stagingName := ".helm-1.part"
  targetName := "data"
  distinct := by decide
  files path := if path = ["srv", ".helm-1.part"] then some (.file 7) else none
  inode := 7
  staged := rfl

/-- A directory is created at the target after the last test. -/
def createdLate : List Event :=
  List.replicate 7 (.go false) ++ [.create .directory, .go false, .go false, .go false]

/-- **A directory that appears in time takes in the staged file**: the caller is told of success,
and a directory stands at the target. -/
theorem linked_inside : ¬ ∀ as s, (remoteCommit alone).run as = some s → Safe alone s := by
  intro hall
  have hend : ((remoteCommit alone).run createdLate).map (fun s => (s.answer, s.files alone.target))
      = some (some .ok, some .directory) := by decide
  obtain ⟨s, hrun, hs⟩ := Option.map_eq_some_iff.mp hend
  obtain ⟨hanswer, htarget⟩ := Prod.mk.inj hs
  cases htarget.symm.trans ((hall createdLate s hrun).success hanswer)

end NoOverwriteCommit
end Remote
end HelmSsh
