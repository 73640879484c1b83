/-
# The limited copy

`copy_async_limited` of `src-tauri/src/remote/transfer.rs` with `ensure_transfer_not_canceled` and
`wait_while_paused`.  It collects reads up to `coalesce_target`, tests the limit on the bytes that
it has counted and collected, and then writes them.  The function stops where it waits and where it
looks at the flags; an event is what the awaited call does, or a change of a flag.  A `write_all`
goes on in steps, and what it has written when it fails stays in the destination.

* `Inv.step` — what is written, collected and left is the source, and what is written or about to
  be written is within the limit.
* `limited_copy` — the copy returns `Ok` exactly when the source is within the limit and no call
  failed and no check found the cancel flag; the destination is then the source, and always a
  prefix of it within the limit, and the counter is the length of what was completely written.
* `canceled_too_late` — a cancel after the last check is not seen.
-/

import HelmSsh.Errors
import HelmSsh.Machine
import Mathlib.Data.List.Infix

namespace HelmSsh
namespace Transfer
namespace LimitedCopy

/-- The bytes of a stream. -/
abbrev Bytes := List UInt8

/-- Why the copy fails. -/
inductive Failure where
  | canceled
  | timedOut
  | tooLarge (maxBytes : ℕ)
  | io (error : AppError)
  deriving DecidableEq

/-- The error that is returned for it. -/
def Failure.error : Failure → AppError
  | .canceled => .remote "传输已取消"
  | .timedOut => .remote "上传数据接收超时"
  | .tooLarge maxBytes =>
    .invalidInput ("上传文件不能超过 " ++ toString (maxBytes / 1024 / 1024) ++ " MB")
  | .io error => error

/-- Where the copy is. -/
inductive Phase where
  /-- `ensure_transfer_not_canceled` at the head of the loop. -/
  | head
  /-- `wait_while_paused`, before the reads or, with a chunk, before the write. -/
  | pausing (slept : Bool) (chunk : Option (Bytes × Bool))
  /-- `src.read`, with what was read before. -/
  | reading (read : Bytes)
  /-- `ensure_transfer_not_canceled` after a read. -/
  | readDone (read : Bytes)
  /-- `ensure_transfer_not_canceled` after the test of the limit. -/
  | checked (chunk : Bytes) (reachedEof : Bool)
  /-- `write_all`, with what it has yet to write. -/
  | writing (rest : Bytes) (reachedEof : Bool)
  | flushing
  | returned (result : Except Failure Unit)
  deriving DecidableEq

/-- The copy, with its source and destination. -/
structure State where
  cancel : Bool
  paused : Bool
  /-- What was not read from the source. -/
  remaining : Bytes
  /-- What was written by the calls of `write_all` that have completed. -/
  written : Bytes
  /-- What was written by one that has not. -/
  begun : Bytes
  bytesDone : ℕ
  phase : Phase
  deriving DecidableEq

/-- What the copy sees, and what happens around it. -/
inductive Event where
  | cancel
  | pause (paused : Bool)
  /-- It looks at the flags. -/
  | look
  | read (bytes : ℕ)
  | eof
  | readFails (error : AppError)
  | timeout
  | write (bytes : ℕ)
  | writeFails (error : AppError)
  | flushed
  | flushFails (error : AppError)
  deriving DecidableEq

/-- `coalesce_target`. -/
def coalesceTarget (bufferSize : ℕ) : ℕ :=
  min (max bufferSize 1) (256 * 1024)

/-- `u64::MAX`. -/
def u64Max : ℕ := UInt64.size - 1

namespace State

/-- The destination. -/
def dst (s : State) : Bytes :=
  s.written ++ s.begun

/-- The copy returns an error. -/
def fail (s : State) (failure : Failure) : State :=
  { s with phase := .returned (.error failure) }

/-- The test of the limit, with a saturating sum. -/
def testLimit (s : State) (maxBytes : ℕ) (chunk : Bytes) (reachedEof : Bool) : State :=
  if maxBytes < min (s.bytesDone + chunk.length) u64Max then s.fail (.tooLarge maxBytes)
  else { s with phase := .checked chunk reachedEof }

/-- `write_all` has written everything, and it is counted. -/
def complete (s : State) (rest : Bytes) (reachedEof : Bool) : State :=
  { s with
    written := s.written ++ (s.begun ++ rest)
    begun := []
    bytesDone := (s.bytesDone + (s.begun ++ rest).length) % UInt64.size
    phase := if reachedEof then .flushing else .head }

end State

section Machine

variable (bufferSize maxBytes : ℕ)

/-- What the copy does where it waits. -/
def advance (s : State) : Phase → Event → Option State
  | .head, .look =>
    some (if s.cancel then s.fail .canceled else { s with phase := .pausing false none })
  | .pausing slept chunk, .look =>
    if slept && s.cancel then some (s.fail .canceled)
    else if s.paused then some { s with phase := .pausing true chunk }
    else match chunk with
      | none => some { s with phase := .reading [] }
      | some (chunk, reachedEof) => some { s with phase := .writing chunk reachedEof }
  | .reading read, .read bytes =>
    if 0 < bytes ∧ bytes ≤ min s.remaining.length (bufferSize - read.length) then
      some { s with
        remaining := s.remaining.drop bytes
        phase := .readDone (read ++ s.remaining.take bytes) }
    else none
  | .reading read, .eof =>
    if s.remaining = [] ∨ bufferSize = 0 then
      some (if read = [] then { s with phase := .flushing } else s.testLimit maxBytes read true)
    else none
  | .reading _, .readFails error => some (s.fail (.io error))
  | .reading _, .timeout => some (s.fail .timedOut)
  | .readDone read, .look =>
    some (if s.cancel then s.fail .canceled
      else if read.length < coalesceTarget bufferSize then { s with phase := .reading read }
      else s.testLimit maxBytes read false)
  | .checked chunk reachedEof, .look =>
    some (if s.cancel then s.fail .canceled
      else { s with phase := .pausing false (some (chunk, reachedEof)) })
  | .writing rest reachedEof, .write bytes =>
    if 0 < bytes ∧ bytes < rest.length then
      some { s with
        begun := s.begun ++ rest.take bytes
        phase := .writing (rest.drop bytes) reachedEof }
    else if bytes = rest.length then some (s.complete rest reachedEof)
    else none
  | .writing _ _, .writeFails error => some (s.fail (.io error))
  | .flushing, .flushed => some { s with phase := .returned (.ok ()) }
  | .flushing, .flushFails error => some (s.fail (.io error))
  | _, _ => none

/-- The effect of an event. -/
def step (s : State) : Event → Option State
  | .cancel => some { s with cancel := true }
  | .pause paused => some { s with paused }
  | event => advance bufferSize maxBytes s s.phase event

/-- `copy_async_limited` on a source. -/
def copyAsyncLimited (source : Bytes) : Machine State Event where
  init :=
    { cancel := false, paused := false, remaining := source, written := [], begun := []
      bytesDone := 0, phase := .head }
  step := step bufferSize maxBytes

end Machine

/-! ### The invariant -/

/-- What was read and has not been given to a write. -/
def Phase.held : Phase → Bytes
  | .pausing _ (some (chunk, _)) => chunk
  | .reading read => read
  | .readDone read => read
  | .checked chunk _ => chunk
  | .writing rest _ => rest
  | _ => []

/-- What passed the test of the limit. -/
def Phase.passed : Phase → Bytes
  | .pausing _ (some (chunk, _)) => chunk
  | .checked chunk _ => chunk
  | .writing rest _ => rest
  | _ => []

/-- The end of the source was seen. -/
def Phase.AtEnd : Phase → Prop
  | .pausing _ (some (_, reachedEof)) => reachedEof = true
  | .checked _ reachedEof => reachedEof = true
  | .writing _ reachedEof => reachedEof = true
  | .flushing => True
  | _ => False

/-- There is something where something is to be written or was just read, and a read goes on only
below `coalesce_target`. -/
def Phase.Filled (bufferSize : ℕ) : Phase → Prop
  | .reading read => read.length < coalesceTarget bufferSize
  | .pausing _ (some (chunk, _)) => chunk ≠ []
  | .readDone read => read ≠ []
  | .checked chunk _ => chunk ≠ []
  | .writing rest _ => rest ≠ []
  | _ => True

/-- The invariant of a copy. -/
structure Inv (source : Bytes) (bufferSize maxBytes : ℕ) (s : State) : Prop where
  whole : (∀ result, s.phase ≠ .returned result) →
    s.dst ++ (s.phase.held ++ s.remaining) = source
  isPrefix : s.dst <+: source
  within : (s.dst ++ s.phase.passed).length ≤ maxBytes
  counted : s.bytesDone = s.written.length
  begun : s.begun ≠ [] → (∃ rest reachedEof, s.phase = .writing rest reachedEof) ∨
    ∃ error, s.phase = .returned (.error (.io error))
  atEnd : s.phase.AtEnd → s.remaining = []
  filled : s.phase.Filled bufferSize
  ok : s.phase = .returned (.ok ()) → s.dst = source
  tooLarge : ∀ m, s.phase = .returned (.error (.tooLarge m)) → maxBytes < source.length

variable {source : Bytes} {bufferSize maxBytes : ℕ}

variable {s s' : State} {event : Event} {rest : Bytes} {reachedEof : Bool}

theorem Inv.fail {failure : Failure} (hinv : Inv source bufferSize maxBytes s)
    (hbegun : s.begun = [] ∨ ∃ error, failure = .io error)
    (hlarge : ∀ m, failure = .tooLarge m → maxBytes < source.length) :
    Inv source bufferSize maxBytes (s.fail failure) where
  whole := fun h => absurd rfl (h (.error failure))
  isPrefix := hinv.isPrefix
  within := by
    have := hinv.within
    rw [List.length_append] at this
    show (s.dst ++ []).length ≤ maxBytes
    rw [List.append_nil]
    omega
  counted := hinv.counted
  begun := by
    intro hsome
    rcases hbegun with hnone | ⟨error, rfl⟩
    · exact absurd hnone hsome
    · exact .inr ⟨error, rfl⟩
  atEnd := fun h => h.elim
  filled := trivial
  ok := nofun
  tooLarge := by
    intro m h
    cases h
    exact hlarge m rfl

/-- A step that only moves on keeps what is collected, and lets no more pass than before. -/
theorem Inv.goOn {phase : Phase} (hinv : Inv source bufferSize maxBytes s)
    (hrunning : ∀ result, s.phase ≠ .returned result) (hbegun : s.begun = [])
    (hnext : ∀ result, phase ≠ .returned result) (hheld : phase.held = s.phase.held)
    (hpassed : (s.written ++ phase.passed).length ≤ maxBytes)
    (hend : phase.AtEnd → s.remaining = []) (hfilled : phase.Filled bufferSize) :
    Inv source bufferSize maxBytes { s with phase } where
  whole := by
    intro _
    show s.dst ++ (phase.held ++ s.remaining) = source
    rw [hheld]
    exact hinv.whole hrunning
  isPrefix := hinv.isPrefix
  within := by
    show ((s.written ++ s.begun) ++ phase.passed).length ≤ maxBytes
    rw [hbegun, List.append_nil]
    exact hpassed
  counted := hinv.counted
  begun := fun hsome => absurd hbegun hsome
  atEnd := hend
  filled := hfilled
  ok := fun h => absurd h (hnext _)
  tooLarge := fun m h => absurd h (hnext _)

theorem Inv.written_le (hinv : Inv source bufferSize maxBytes s) :
    s.written.length + s.begun.length ≤ maxBytes := by
  have := hinv.within
  rw [State.dst, List.length_append, List.length_append] at this
  omega

theorem Inv.testLimit {chunk : Bytes}
    (hinv : Inv source bufferSize maxBytes s) (hmax : maxBytes ≤ u64Max)
    (hsize : maxBytes < u64Max ∨ source.length ≤ u64Max)
    (hrunning : ∀ result, s.phase ≠ .returned result) (hbegun : s.begun = [])
    (hheld : s.phase.held = chunk) (hchunk : chunk ≠ [])
    (hend : reachedEof = true → s.remaining = []) :
    Inv source bufferSize maxBytes (s.testLimit maxBytes chunk reachedEof) := by
  have hwhole := hinv.whole hrunning
  rw [State.dst, hbegun, List.append_nil, hheld] at hwhole
  have hlength := congrArg List.length hwhole
  rw [List.length_append, List.length_append] at hlength
  have hcounted := hinv.counted
  unfold State.testLimit
  split_ifs with hlarge
  · refine hinv.fail (.inl hbegun) fun m _ => ?_
    omega
  · refine hinv.goOn hrunning hbegun nofun hheld.symm ?_ hend hchunk
    show (s.written ++ chunk).length ≤ maxBytes
    rw [List.length_append]
    omega

theorem Inv.complete (hinv : Inv source bufferSize maxBytes s) (hmax : maxBytes ≤ u64Max)
    (hphase : s.phase = .writing rest reachedEof) :
    Inv source bufferSize maxBytes (s.complete rest reachedEof) := by
  have hwhole := hinv.whole (by rw [hphase]; nofun)
  have hwithin := hinv.within
  have hcounted := hinv.counted
  have hend := hinv.atEnd
  rw [hphase] at hwhole hwithin hend
  have hdst : s.written ++ (s.begun ++ rest) = s.dst ++ rest := (List.append_assoc _ _ _).symm
  have hlength : s.written.length + (s.begun ++ rest).length ≤ maxBytes := by
    rw [← List.length_append, hdst]
    exact hwithin
  have hbound : s.bytesDone + (s.begun ++ rest).length < UInt64.size := by
    rw [u64Max] at hmax
    have : 0 < UInt64.size := by decide
    omega
  have hsource : s.dst ++ rest ++ s.remaining = source := by
    rw [List.append_assoc]
    exact hwhole
  have hbare : (s.complete rest reachedEof).dst = s.dst ++ rest := by
    show s.written ++ (s.begun ++ rest) ++ [] = _
    rw [List.append_nil, hdst]
  have hflags : (s.complete rest reachedEof).phase.held = [] ∧
      (s.complete rest reachedEof).phase.passed = [] ∧
      (s.complete rest reachedEof).phase.Filled bufferSize ∧
      (∀ result, (s.complete rest reachedEof).phase ≠ .returned result) ∧
      ((s.complete rest reachedEof).phase.AtEnd → reachedEof = true) := by
    cases reachedEof with
    | true => exact ⟨rfl, rfl, trivial, nofun, fun _ => rfl⟩
    | false => exact ⟨rfl, rfl, trivial, nofun, fun h => h.elim⟩
  obtain ⟨hheld, hpassed, hfilled, hrunning, hatEnd⟩ := hflags
  exact
    { whole := by
        intro _
        rw [hbare, hheld, List.nil_append]
        exact hsource
      isPrefix := by
        rw [hbare]
        exact ⟨s.remaining, hsource⟩
      within := by
        rw [hbare, hpassed, List.append_nil]
        exact hwithin
      counted := by
        show (s.bytesDone + (s.begun ++ rest).length) % UInt64.size = _
        rw [Nat.mod_eq_of_lt hbound, hcounted]
        exact List.length_append.symm
      begun := fun h => absurd rfl h
      atEnd := fun h => hend (hatEnd h)
      filled := hfilled
      ok := fun h => absurd h (hrunning _)
      tooLarge := fun m h => absurd h (hrunning _) }

/-- A read moves bytes from the source to what is collected. -/
theorem Inv.read {read : Bytes} {bytes : ℕ} (hinv : Inv source bufferSize maxBytes s)
    (hphase : s.phase = .reading read) (hbegun : s.begun = [])
    (hbytes : 0 < bytes ∧ bytes ≤ s.remaining.length) :
    Inv source bufferSize maxBytes
      { s with
        remaining := s.remaining.drop bytes
        phase := .readDone (read ++ s.remaining.take bytes) } where
  whole := by
    intro _
    show s.dst ++ ((read ++ s.remaining.take bytes) ++ s.remaining.drop bytes) = source
    rw [List.append_assoc, List.take_append_drop]
    have hwhole := hinv.whole (by rw [hphase]; nofun)
    rw [hphase] at hwhole
    exact hwhole
  isPrefix := hinv.isPrefix
  within := by
    have hwithin := hinv.within
    rw [hphase] at hwithin
    exact hwithin
  counted := hinv.counted
  begun := fun hsome => absurd hbegun hsome
  atEnd := fun h => h.elim
  filled := by
    intro hnil
    have hlength := congrArg List.length hnil
    rw [List.length_append, List.length_take, List.length_nil] at hlength
    omega
  ok := nofun
  tooLarge := nofun

/-- A write that has not written everything moves bytes to the destination. -/
theorem Inv.write {bytes : ℕ}
    (hinv : Inv source bufferSize maxBytes s) (hphase : s.phase = .writing rest reachedEof)
    (hbytes : bytes < rest.length) :
    Inv source bufferSize maxBytes
      { s with
        begun := s.begun ++ rest.take bytes
        phase := .writing (rest.drop bytes) reachedEof } := by
  have hwhole := hinv.whole (by rw [hphase]; nofun)
  have hwithin := hinv.within
  have hend := hinv.atEnd
  rw [hphase] at hwhole hwithin hend
  have hdst : s.written ++ (s.begun ++ rest.take bytes) ++ rest.drop bytes = s.dst ++ rest := by
    rw [State.dst, List.append_assoc, List.append_assoc, List.append_assoc,
      List.take_append_drop]
  have hsource : s.dst ++ rest ++ s.remaining = source := by
    rw [List.append_assoc]
    exact hwhole
  exact
    { whole := by
        intro _
        show s.written ++ (s.begun ++ rest.take bytes) ++ (rest.drop bytes ++ s.remaining) = _
        rw [← List.append_assoc, hdst]
        exact hsource
      isPrefix := by
        refine ⟨rest.drop bytes ++ s.remaining, ?_⟩
        show s.written ++ (s.begun ++ rest.take bytes) ++ (rest.drop bytes ++ s.remaining) = _
        rw [← List.append_assoc, hdst]
        exact hsource
      within := by
        show (s.written ++ (s.begun ++ rest.take bytes) ++ rest.drop bytes).length ≤ maxBytes
        rw [hdst]
        exact hwithin
      counted := hinv.counted
      begun := fun _ => .inl ⟨_, _, rfl⟩
      atEnd := hend
      filled := by
        intro hnil
        have hlength := congrArg List.length hnil
        rw [List.length_drop, List.length_nil] at hlength
        omega
      ok := nofun
      tooLarge := nofun }

/-- **Each step of the copy keeps the invariant.** -/
theorem Inv.advance (hinv : Inv source bufferSize maxBytes s)
    (hbuffer : 1 ≤ bufferSize) (hmax : maxBytes ≤ u64Max)
    (hsize : maxBytes < u64Max ∨ source.length ≤ u64Max)
    (h : advance bufferSize maxBytes s s.phase event = some s') :
    Inv source bufferSize maxBytes s' := by
  have hbegun : (∀ rest reachedEof, s.phase ≠ .writing rest reachedEof) →
      (∀ result, s.phase ≠ .returned result) → s.begun = [] := by
    intro hwriting hrunning
    by_contra hsome
    rcases hinv.begun hsome with ⟨rest, reachedEof, hphase⟩ | ⟨error, hphase⟩
    · exact hwriting rest reachedEof hphase
    · exact hrunning _ hphase
  have hwritten := hinv.written_le
  unfold LimitedCopy.advance at h
  split at h
  case h_1 hphase =>
    have hnone := hbegun (by rw [hphase]; nofun) (by rw [hphase]; nofun)
    obtain rfl := Option.some.inj h
    split_ifs
    · exact hinv.fail (.inl hnone) nofun
    · refine hinv.goOn (by rw [hphase]; nofun) hnone nofun (by rw [hphase]; rfl) ?_
        (fun h => h.elim) trivial
      show (s.written ++ []).length ≤ maxBytes
      rw [List.append_nil]
      omega
  case h_2 slept chunk hphase =>
    have hrunning : ∀ result, s.phase ≠ .returned result := by
      rw [hphase]
      nofun
    have hnone := hbegun (by rw [hphase]; nofun) hrunning
    have hwithin := hinv.within
    have hend := hinv.atEnd
    have hfilled := hinv.filled
    rw [State.dst, hnone, List.append_nil, hphase] at hwithin
    rw [hphase] at hend hfilled
    split at h
    · obtain rfl := Option.some.inj h
      exact hinv.fail (.inl hnone) nofun
    · split at h
      · obtain rfl := Option.some.inj h
        cases chunk with
        | none | some chunk =>
          exact hinv.goOn hrunning hnone nofun (by rw [hphase]; rfl) hwithin hend hfilled
      · cases chunk with
        | none =>
          obtain rfl := Option.some.inj h
          refine hinv.goOn hrunning hnone nofun (by rw [hphase]; rfl) hwithin hend ?_
          show 0 < coalesceTarget bufferSize
          rw [coalesceTarget]
          omega
        | some chunk =>
          obtain rfl := Option.some.inj h
          exact hinv.goOn hrunning hnone nofun (by rw [hphase]; rfl) hwithin hend hfilled
  case h_3 read bytes hphase =>
    have hnone := hbegun (by rw [hphase]; nofun) (by rw [hphase]; nofun)
    split at h
    case isTrue hbytes =>
      obtain rfl := Option.some.inj h
      exact hinv.read hphase hnone ⟨hbytes.1, hbytes.2.trans (Nat.min_le_left _ _)⟩
    case isFalse => cases h
  case h_4 read hphase =>
    have hrunning : ∀ result, s.phase ≠ .returned result := by
      rw [hphase]
      nofun
    have hnone := hbegun (by rw [hphase]; nofun) hrunning
    split at h
    case isTrue hend =>
      have hremaining := hend.resolve_right (by omega)
      obtain rfl := Option.some.inj h
      split_ifs with hread
      · refine hinv.goOn hrunning hnone nofun ?_ ?_ (fun _ => hremaining) trivial
        · rw [hphase, hread]
          rfl
        · show (s.written ++ []).length ≤ maxBytes
          rw [List.append_nil]
          omega
      · exact hinv.testLimit hmax hsize hrunning hnone (by rw [hphase]; rfl) hread
          fun _ => hremaining
    case isFalse => cases h
  case h_5 read error hphase | h_10 rest reachedEof error hphase | h_12 error hphase =>
    obtain rfl := Option.some.inj h
    exact hinv.fail (.inr ⟨error, rfl⟩) nofun
  case h_6 read hphase =>
    obtain rfl := Option.some.inj h
    exact hinv.fail (.inl (hbegun (by rw [hphase]; nofun) (by rw [hphase]; nofun))) nofun
  case h_7 read hphase =>
    have hrunning : ∀ result, s.phase ≠ .returned result := by
      rw [hphase]
      nofun
    have hnone := hbegun (by rw [hphase]; nofun) hrunning
    have hfilled := hinv.filled
    rw [hphase] at hfilled
    obtain rfl := Option.some.inj h
    split_ifs with hcancel hroom
    · exact hinv.fail (.inl hnone) nofun
    · refine hinv.goOn hrunning hnone nofun (by rw [hphase]; rfl) ?_ (fun h => h.elim) hroom
      show (s.written ++ []).length ≤ maxBytes
      rw [List.append_nil]
      omega
    · exact hinv.testLimit hmax hsize hrunning hnone (by rw [hphase]; rfl) hfilled nofun
  case h_8 chunk reachedEof hphase =>
    have hrunning : ∀ result, s.phase ≠ .returned result := by
      rw [hphase]
      nofun
    have hnone := hbegun (by rw [hphase]; nofun) hrunning
    have hwithin := hinv.within
    have hend := hinv.atEnd
    have hfilled := hinv.filled
    rw [State.dst, hnone, List.append_nil, hphase] at hwithin
    rw [hphase] at hend hfilled
    obtain rfl := Option.some.inj h
    split_ifs
    · exact hinv.fail (.inl hnone) nofun
    · exact hinv.goOn hrunning hnone nofun (by rw [hphase]; rfl) hwithin hend hfilled
  case h_9 rest reachedEof bytes hphase =>
    split at h
    case isTrue hbytes =>
      obtain rfl := Option.some.inj h
      exact hinv.write hphase hbytes.2
    case isFalse =>
      split at h
      · obtain rfl := Option.some.inj h
        exact hinv.complete hmax hphase
      · cases h
  case h_11 hphase =>
    have hrunning : ∀ result, s.phase ≠ .returned result := by
      rw [hphase]
      nofun
    have hwhole := hinv.whole hrunning
    rw [hinv.atEnd (by rw [hphase]; trivial), hphase, List.append_nil] at hwhole
    have hdst : s.dst = source := by
      rw [← hwhole]
      exact (List.append_nil _).symm
    have hwithin := hinv.within
    rw [hphase] at hwithin
    obtain rfl := Option.some.inj h
    exact
      { hinv with
        whole := fun h => absurd rfl (h (.ok ()))
        within := hwithin
        begun := fun h => absurd (hbegun (by rw [hphase]; nofun) hrunning) h
        atEnd := fun h => h.elim
        filled := trivial
        ok := fun _ => hdst
        tooLarge := nofun }
  case h_13 => cases h

theorem Inv.step (hinv : Inv source bufferSize maxBytes s)
    (hbuffer : 1 ≤ bufferSize) (hmax : maxBytes ≤ u64Max)
    (hsize : maxBytes < u64Max ∨ source.length ≤ u64Max)
    (h : step bufferSize maxBytes s event = some s') : Inv source bufferSize maxBytes s' := by
  unfold LimitedCopy.step at h
  split at h
  case h_1 =>
    obtain rfl := Option.some.inj h
    exact { hinv with }
  case h_2 =>
    obtain rfl := Option.some.inj h
    exact { hinv with }
  case h_3 => exact hinv.advance hbuffer hmax hsize h

theorem inv_init :
    Inv source bufferSize maxBytes (copyAsyncLimited bufferSize maxBytes source).init where
  whole := fun _ => rfl
  isPrefix := List.nil_prefix
  within := Nat.zero_le _
  counted := rfl
  begun := fun h => absurd rfl h
  atEnd := fun h => h.elim
  filled := trivial
  ok := nofun
  tooLarge := nofun

/-! ### What makes the copy fail -/

/-- A call that fails. -/
def Event.failing : Event → Bool
  | .readFails _ | .timeout | .writeFails _ | .flushFails _ => true
  | _ => false

/-- The cancel flag is looked at here. -/
def Phase.Checks : Phase → Prop
  | .head => True
  | .pausing slept _ => slept = true
  | .readDone _ => True
  | .checked _ _ => True
  | _ => False

/-- No call fails, and no check finds the cancel flag. -/
def Unflawed (s : State) (event : Event) : Prop :=
  event.failing = false ∧ ¬ (event = .look ∧ s.phase.Checks ∧ s.cancel = true)

/-- The copy has failed for nothing but the limit. -/
def OnlyTooLarge (s : State) : Prop :=
  ∀ failure, s.phase = .returned (.error failure) → ∃ m, failure = .tooLarge m

theorem onlyTooLarge_of_running (h : ∀ failure, s.phase ≠ .returned (.error failure)) :
    OnlyTooLarge s :=
  fun failure hphase => absurd hphase (h failure)

theorem onlyTooLarge_testLimit (s : State) (chunk : Bytes) (reachedEof : Bool) :
    OnlyTooLarge (s.testLimit maxBytes chunk reachedEof) := by
  unfold State.testLimit
  split_ifs
  · intro failure hphase
    cases hphase
    exact ⟨maxBytes, rfl⟩
  · exact onlyTooLarge_of_running nofun

/-- **Each step makes the copy fail** exactly when it is flawed, the limit apart. -/
theorem advance_onlyTooLarge (h : advance bufferSize maxBytes s s.phase event = some s') :
    OnlyTooLarge s' ↔ OnlyTooLarge s ∧ Unflawed s event := by
  have hgood : (∀ failure, s.phase ≠ .returned (.error failure)) → OnlyTooLarge s' →
      Unflawed s event → (OnlyTooLarge s' ↔ OnlyTooLarge s ∧ Unflawed s event) :=
    fun hrunning hnext hok => ⟨fun _ => ⟨onlyTooLarge_of_running hrunning, hok⟩, fun _ => hnext⟩
  have hbad : ∀ failure, s'.phase = .returned (.error failure) → (∀ m, failure ≠ .tooLarge m) →
      ¬ Unflawed s event → (OnlyTooLarge s' ↔ OnlyTooLarge s ∧ Unflawed s event) := by
    intro failure hphase hfailure hflaw
    constructor
    · intro honly
      obtain ⟨m, hm⟩ := honly failure hphase
      exact absurd hm (hfailure m)
    · exact fun h => absurd h.2 hflaw
  unfold advance at h
  split at h
  case h_1 hphase =>
    obtain rfl := Option.some.inj h
    split_ifs at hgood hbad ⊢ with hcancel
    · exact hbad .canceled rfl nofun fun h => h.2 ⟨rfl, by rw [hphase]; trivial, hcancel⟩
    · refine hgood (by rw [hphase]; nofun) (onlyTooLarge_of_running nofun) ⟨rfl, ?_⟩
      exact fun h => hcancel h.2.2
  case h_2 slept chunk hphase =>
    have hrunning : ∀ failure, s.phase ≠ .returned (.error failure) := by
      rw [hphase]
      nofun
    split at h
    case isTrue hcancel =>
      rw [Bool.and_eq_true] at hcancel
      obtain rfl := Option.some.inj h
      exact hbad .canceled rfl nofun
        fun h => h.2 ⟨rfl, by rw [hphase]; exact hcancel.1, hcancel.2⟩
    case isFalse hcancel =>
      have hok : Unflawed s .look := by
        refine ⟨rfl, ?_⟩
        rintro ⟨-, hchecks, hset⟩
        rw [hphase] at hchecks
        exact hcancel (by rw [Bool.and_eq_true]; exact ⟨hchecks, hset⟩)
      refine hgood hrunning (onlyTooLarge_of_running ?_) hok
      split at h
      · obtain rfl := Option.some.inj h
        nofun
      · cases chunk with
        | none =>
          obtain rfl := Option.some.inj h
          nofun
        | some chunk =>
          obtain rfl := Option.some.inj h
          nofun
  case h_3 read bytes hphase =>
    split at h
    · obtain rfl := Option.some.inj h
      exact hgood (by rw [hphase]; nofun) (onlyTooLarge_of_running nofun) ⟨rfl, nofun⟩
    · cases h
  case h_4 read hphase =>
    split at h
    · obtain rfl := Option.some.inj h
      refine hgood (by rw [hphase]; nofun) ?_ ⟨rfl, nofun⟩
      split_ifs
      · exact onlyTooLarge_of_running nofun
      · exact onlyTooLarge_testLimit s read true
    · cases h
  case h_5 read error hphase | h_10 rest reachedEof error hphase | h_12 error hphase =>
    obtain rfl := Option.some.inj h
    exact hbad (.io error) rfl nofun fun h => nomatch h.1
  case h_6 read hphase =>
    obtain rfl := Option.some.inj h
    exact hbad .timedOut rfl nofun fun h => nomatch h.1
  case h_7 read hphase =>
    obtain rfl := Option.some.inj h
    by_cases hcancel : s.cancel = true
    · rw [if_pos hcancel] at hbad ⊢
      exact hbad .canceled rfl nofun fun h => h.2 ⟨rfl, by rw [hphase]; trivial, hcancel⟩
    · refine hgood (by rw [hphase]; nofun) ?_ ⟨rfl, fun h => hcancel h.2.2⟩
      rw [if_neg hcancel]
      split_ifs
      · exact onlyTooLarge_of_running nofun
      · exact onlyTooLarge_testLimit s read false
  case h_8 chunk reachedEof hphase =>
    obtain rfl := Option.some.inj h
    by_cases hcancel : s.cancel = true
    · rw [if_pos hcancel] at hbad ⊢
      exact hbad .canceled rfl nofun fun h => h.2 ⟨rfl, by rw [hphase]; trivial, hcancel⟩
    · refine hgood (by rw [hphase]; nofun) ?_ ⟨rfl, fun h => hcancel h.2.2⟩
      rw [if_neg hcancel]
      exact onlyTooLarge_of_running nofun
  case h_9 rest reachedEof bytes hphase =>
    split at h
    case isTrue =>
      obtain rfl := Option.some.inj h
      exact hgood (by rw [hphase]; nofun) (onlyTooLarge_of_running nofun) ⟨rfl, nofun⟩
    case isFalse =>
      split at h
      case isTrue =>
        obtain rfl := Option.some.inj h
        refine hgood (by rw [hphase]; nofun) (onlyTooLarge_of_running ?_) ⟨rfl, nofun⟩
        cases reachedEof with
        | true => nofun
        | false => nofun
      case isFalse => cases h
  case h_11 hphase =>
    obtain rfl := Option.some.inj h
    exact hgood (by rw [hphase]; nofun) (onlyTooLarge_of_running nofun) ⟨rfl, nofun⟩
  case h_13 => cases h

theorem step_onlyTooLarge (h : step bufferSize maxBytes s event = some s') :
    OnlyTooLarge s' ↔ OnlyTooLarge s ∧ Unflawed s event := by
  unfold LimitedCopy.step at h
  split at h
  case h_1 | h_2 =>
    obtain rfl := Option.some.inj h
    exact ⟨fun honly => ⟨honly, rfl, nofun⟩, fun honly => honly.1⟩
  case h_3 => exact advance_onlyTooLarge h

/-! ### The copy comes to its end -/

/-- A change of a flag. -/
def Event.flag : Event → Bool
  | .cancel | .pause _ => true
  | _ => false

/-- A bound of the steps that a phase leads to, the bytes not yet read apart. -/
def Phase.cost : Phase → ℕ
  | .head => 5
  | .pausing _ none => 4
  | .pausing _ (some (chunk, _)) => chunk.length + 7
  | .reading read => if read = [] then 3 else read.length + 9
  | .readDone read => read.length + 10
  | .checked chunk _ => chunk.length + 8
  | .writing rest _ => rest.length + 6
  | .flushing => 1
  | .returned _ => 0

/-- A bound of the steps that are left. -/
def State.cost (s : State) : ℕ :=
  9 * s.remaining.length + s.phase.cost

theorem cost_testLimit_le (maxBytes : ℕ) (s : State) (chunk : Bytes) (reachedEof : Bool) :
    (s.testLimit maxBytes chunk reachedEof).cost ≤ 9 * s.remaining.length + (chunk.length + 8) := by
  unfold State.testLimit
  split_ifs
  · show 9 * s.remaining.length + 0 ≤ _
    omega
  · exact Nat.le_refl _

theorem cost_fail_lt {failure : Failure} (h : 0 < s.phase.cost) :
    (s.fail failure).cost < s.cost := by
  show 9 * s.remaining.length + 0 < 9 * s.remaining.length + s.phase.cost
  omega

theorem paused_testLimit (s : State) (chunk : Bytes) (reachedEof : Bool) :
    (s.testLimit maxBytes chunk reachedEof).paused = s.paused := by
  unfold State.testLimit
  split_ifs
  · rfl
  · rfl

/-- A copy that is not paused comes nearer to its end with each step. -/
theorem cost_advance (hpaused : s.paused = false)
    (h : advance bufferSize maxBytes s s.phase event = some s') :
    s'.cost < s.cost ∧ s'.paused = false := by
  have cost_eq : s.cost = 9 * s.remaining.length + s.phase.cost := rfl
  unfold advance at h
  split at h
  case h_1 hphase =>
    obtain rfl := Option.some.inj h
    rw [cost_eq, hphase]
    split_ifs
    · refine ⟨?_, hpaused⟩
      show 9 * s.remaining.length + 0 < 9 * s.remaining.length + 5
      omega
    · refine ⟨?_, hpaused⟩
      show 9 * s.remaining.length + 4 < 9 * s.remaining.length + 5
      omega
  case h_2 slept chunk hphase =>
    have hnot : ¬ s.paused = true := by
      rw [hpaused]
      nofun
    rw [if_neg hnot] at h
    rw [cost_eq, hphase]
    split at h
    · obtain rfl := Option.some.inj h
      refine ⟨?_, hpaused⟩
      show 9 * s.remaining.length + 0 < _
      cases chunk with
      | none =>
        rw [Phase.cost]
        omega
      | some chunk =>
        rw [Phase.cost]
        omega
    · cases chunk with
      | none =>
        obtain rfl := Option.some.inj h
        refine ⟨?_, hpaused⟩
        show 9 * s.remaining.length + 3 < 9 * s.remaining.length + 4
        omega
      | some chunk =>
        obtain rfl := Option.some.inj h
        refine ⟨?_, hpaused⟩
        show 9 * s.remaining.length + (chunk.1.length + 6) <
          9 * s.remaining.length + (chunk.1.length + 7)
        omega
  case h_3 read bytes hphase =>
    rw [cost_eq, hphase]
    split at h
    · obtain rfl := Option.some.inj h
      refine ⟨?_, hpaused⟩
      show 9 * (s.remaining.drop bytes).length + ((read ++ s.remaining.take bytes).length + 10) < _
      rw [Phase.cost, List.length_drop, List.length_append, List.length_take]
      split_ifs with hread
      · rw [hread, List.length_nil]
        omega
      · omega
    · cases h
  case h_4 read hphase =>
    rw [cost_eq, hphase]
    split at h
    · obtain rfl := Option.some.inj h
      by_cases hread : read = []
      · rw [if_pos hread, Phase.cost, if_pos hread]
        refine ⟨?_, hpaused⟩
        show 9 * s.remaining.length + 1 < _
        omega
      · have htest := cost_testLimit_le maxBytes s read true
        rw [if_neg hread, Phase.cost, if_neg hread]
        exact ⟨by omega, (paused_testLimit s read true).trans hpaused⟩
    · cases h
  case h_5 read error hphase | h_6 read hphase =>
    obtain rfl := Option.some.inj h
    exact ⟨cost_fail_lt (by rw [hphase, Phase.cost]; split_ifs <;> omega), hpaused⟩
  case h_7 read hphase =>
    obtain rfl := Option.some.inj h
    split_ifs with hcancel hroom
    · exact ⟨cost_fail_lt (by rw [hphase, Phase.cost]; omega), hpaused⟩
    · rw [cost_eq, hphase]
      refine ⟨?_, hpaused⟩
      show 9 * s.remaining.length + Phase.cost (.reading read) < _
      rw [Phase.cost, Phase.cost]
      split_ifs <;> omega
    · have htest := cost_testLimit_le maxBytes s read false
      rw [cost_eq, hphase, Phase.cost]
      exact ⟨by omega, (paused_testLimit s read false).trans hpaused⟩
  case h_8 chunk reachedEof hphase =>
    obtain rfl := Option.some.inj h
    split_ifs with hcancel
    · exact ⟨cost_fail_lt (by rw [hphase, Phase.cost]; omega), hpaused⟩
    · rw [cost_eq, hphase]
      refine ⟨?_, hpaused⟩
      show 9 * s.remaining.length + (chunk.length + 7) <
        9 * s.remaining.length + (chunk.length + 8)
      omega
  case h_9 rest reachedEof bytes hphase =>
    rw [cost_eq, hphase]
    split at h
    case isTrue hbytes =>
      obtain rfl := Option.some.inj h
      refine ⟨?_, hpaused⟩
      show 9 * s.remaining.length + ((rest.drop bytes).length + 6) <
        9 * s.remaining.length + (rest.length + 6)
      rw [List.length_drop]
      omega
    case isFalse =>
      split at h
      case isTrue =>
        obtain rfl := Option.some.inj h
        refine ⟨?_, hpaused⟩
        cases reachedEof with
        | true =>
          show 9 * s.remaining.length + 1 < 9 * s.remaining.length + (rest.length + 6)
          omega
        | false =>
          show 9 * s.remaining.length + 5 < 9 * s.remaining.length + (rest.length + 6)
          omega
      case isFalse => cases h
  case h_10 rest reachedEof error hphase | h_12 error hphase =>
    obtain rfl := Option.some.inj h
    exact ⟨cost_fail_lt (by rw [hphase, Phase.cost]; omega), hpaused⟩
  case h_11 hphase =>
    obtain rfl := Option.some.inj h
    rw [cost_eq, hphase]
    refine ⟨?_, hpaused⟩
    show 9 * s.remaining.length + 0 < 9 * s.remaining.length + 1
    omega
  case h_13 => cases h

theorem step_of_not_flag (h : event.flag = false) :
    step bufferSize maxBytes s event = advance bufferSize maxBytes s s.phase event := by
  cases event with
  | cancel => cases h
  | pause paused => cases h
  | _ => rfl

/-- A copy that has not returned can go on without a failure. -/
theorem Inv.can_advance (hinv : Inv source bufferSize maxBytes s)
    (hbuffer : 1 ≤ bufferSize) (hrunning : ∀ result, s.phase ≠ .returned result) :
    ∃ event : Event, event.failing = false ∧ event.flag = false ∧
      (LimitedCopy.step bufferSize maxBytes s event).isSome = true := by
  have hfilled := hinv.filled
  cases hphase : s.phase with
  | head | readDone read | checked chunk reachedEof =>
    exact ⟨.look, rfl, rfl, by rw [step_of_not_flag rfl, hphase]; rfl⟩
  | pausing slept chunk =>
    refine ⟨.look, rfl, rfl, ?_⟩
    rw [step_of_not_flag rfl, hphase]
    unfold LimitedCopy.advance
    dsimp only
    split_ifs
    · rfl
    · rfl
    · cases chunk with
      | none => rfl
      | some chunk => rfl
  | reading read =>
    rw [hphase] at hfilled
    have hroom : read.length < coalesceTarget bufferSize := hfilled
    rw [coalesceTarget] at hroom
    by_cases hend : s.remaining = []
    · refine ⟨.eof, rfl, rfl, ?_⟩
      rw [step_of_not_flag rfl, hphase]
      unfold LimitedCopy.advance
      dsimp only
      rw [if_pos (.inl hend)]
      rfl
    · have hsome := List.length_pos_iff.mpr hend
      refine ⟨.read 1, rfl, rfl, ?_⟩
      rw [step_of_not_flag rfl, hphase]
      unfold LimitedCopy.advance
      dsimp only
      rw [if_pos ⟨by omega, by omega⟩]
      rfl
  | writing rest reachedEof =>
    refine ⟨.write rest.length, rfl, rfl, ?_⟩
    rw [step_of_not_flag rfl, hphase]
    unfold LimitedCopy.advance
    dsimp only
    rw [if_neg (by omega), if_pos rfl]
    rfl
  | flushing => exact ⟨.flushed, rfl, rfl, by rw [step_of_not_flag rfl, hphase]; rfl⟩
  | returned result => exact absurd hphase (hrunning result)

/-- A copy whose flags are left alone makes only so many steps. -/
theorem length_le_of_run {events : List Event}
    (hrun : (copyAsyncLimited bufferSize maxBytes source).run events = some s)
    (hflags : ∀ event ∈ events, event.flag = false) :
    events.length ≤ 9 * source.length + 5 := by
  have hmeets : (copyAsyncLimited bufferSize maxBytes source).Meets
      (fun _ event => event.flag = false) events := Machine.meetsFrom_of_forall hflags
  have key : events.length + s.cost ≤ 9 * source.length + 5 ∧ s.paused = false := by
    refine Machine.run_history_invariant_of
      (J := fun events s => events.length + s.cost ≤ 9 * source.length + 5 ∧ s.paused = false)
      ?_ ?_ hmeets hrun
    · refine ⟨?_, rfl⟩
      show 0 + (9 * source.length + 5) ≤ _
      omega
    · rintro events s event s' - ⟨hcost, hpaused⟩ hflag hstep
      have hadvance : advance bufferSize maxBytes s s.phase event = some s' :=
        (step_of_not_flag hflag).symm.trans hstep
      obtain ⟨hless, hstill⟩ := cost_advance hpaused hadvance
      refine ⟨?_, hstill⟩
      rw [List.length_append, List.length_singleton]
      omega
  omega

/-- **The limited copy.**  It returns `Ok` exactly when the source is within the limit, no call
failed and no check found the cancel flag, and then the destination is the source.  The destination
is always a prefix of the source within the limit, and the counter says what was completely
written.  With its flags left alone the copy returns, after so many steps at most. -/
theorem limited_copy (source : Bytes) (bufferSize maxBytes : ℕ) (hbuffer : 1 ≤ bufferSize)
    (hmax : maxBytes ≤ u64Max) (hsize : maxBytes < u64Max ∨ source.length ≤ u64Max)
    (events : List Event) (s : State)
    (hrun : (copyAsyncLimited bufferSize maxBytes source).run events = some s) :
    (∀ result, s.phase = .returned result →
      (result = .ok () ↔ source.length ≤ maxBytes ∧
        (copyAsyncLimited bufferSize maxBytes source).Meets Unflawed events) ∧
      (result = .ok () → s.dst = source)) ∧
    s.dst <+: source ∧ s.dst.length ≤ maxBytes ∧ s.bytesDone = s.written.length ∧
    ((∀ result, s.phase ≠ .returned result) → ∃ event : Event, event.failing = false ∧
      event.flag = false ∧ (step bufferSize maxBytes s event).isSome = true) ∧
    ((∀ event ∈ events, event.flag = false) → events.length ≤ 9 * source.length + 5) := by
  have hinv : Inv source bufferSize maxBytes s :=
    Machine.run_invariant inv_init
      (fun s event s' hinv hstep => Inv.step hinv hbuffer hmax hsize hstep) hrun
  have honly : OnlyTooLarge s ↔
      (copyAsyncLimited bufferSize maxBytes source).Meets Unflawed events :=
    Machine.run_iff_meets (I := fun _ => True) trivial
      (onlyTooLarge_of_running (by intro failure h; cases h))
      (fun _ _ _ _ _ => trivial) (fun s event s' _ hstep => step_onlyTooLarge hstep) hrun
  have hwithin : s.dst.length ≤ maxBytes := by
    rw [State.dst, List.length_append]
    exact hinv.written_le
  refine ⟨?_, hinv.isPrefix, hwithin, hinv.counted, ?_, length_le_of_run hrun⟩
  · intro result hphase
    rw [← honly]
    refine ⟨⟨?_, ?_⟩, ?_⟩
    · rintro rfl
      have hdst := hinv.ok hphase
      rw [hdst] at hwithin
      refine ⟨hwithin, fun failure hfailed => ?_⟩
      rw [hphase] at hfailed
      cases hfailed
    · rintro ⟨hsmall, hgood⟩
      cases result with
      | ok value => rfl
      | error failure =>
        obtain ⟨m, rfl⟩ := hgood failure hphase
        have := hinv.tooLarge m hphase
        omega
    · rintro rfl
      exact hinv.ok hphase
  · exact hinv.can_advance hbuffer

/-- A source of exactly the limit, collected in two reads and written in two steps. -/
theorem limited_copy_two : ∃ s,
    (copyAsyncLimited 2 2 [7, 9]).run
      [.look, .look, .read 1, .look, .read 1, .look, .look, .look, .write 1, .write 1, .look,
        .look, .eof, .flushed] = some s ∧
      s.dst <+: [7, 9] ∧ s.dst.length ≤ 2 := by
  refine (Option.isSome_iff_exists.mp (by decide)).imp fun s hs => ⟨hs, ?_⟩
  obtain ⟨-, hprefix, hlength, -⟩ :=
    limited_copy [7, 9] 2 2 (by decide) (by decide) (.inl (by decide)) _ s hs
  exact ⟨ hprefix, hlength⟩

/-- **A cancel after the last check is not seen.**  The flag is set while the destination is
flushed, and the copy returns `Ok`. -/
theorem canceled_too_late : ¬ ∀ (source : Bytes) (bufferSize maxBytes : ℕ), 1 ≤ bufferSize →
    maxBytes ≤ u64Max → ∀ events s,
      (copyAsyncLimited bufferSize maxBytes source).run events = some s →
      ∀ result, s.phase = .returned result →
        (result = .ok () ↔ source.length ≤ maxBytes ∧
          (∀ event ∈ events, event.failing = false) ∧ Event.cancel ∉ events) := by
  intro h
  have hrun : ∃ s,
      (copyAsyncLimited 1 1 [7]).run
        [.look, .look, .read 1, .look, .look, .look, .write 1, .look, .look, .eof, .cancel,
          .flushed] = some s ∧ s.phase = .returned (.ok ()) :=
    ⟨_, rfl, rfl⟩
  obtain ⟨s, hs, hphase⟩ := hrun
  obtain ⟨-, -, hcancel⟩ := (h [7] 1 1 (by decide) (by decide) _ s hs (.ok ()) hphase).mp rfl
  exact hcancel (by decide)

end LimitedCopy
end Transfer
end HelmSsh
