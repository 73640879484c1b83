/-
# What an interrupted parallel transfer leaves

After an error, `run_parallel_upload` and `run_parallel_download` of
`src-tauri/src/remote/transfer.rs` cut the staging file to `contiguous_parallel_prefix`.  Its
counters say what was handed to `write_all`; the vendored SFTP file returns from it once the
request is queued, and a `tokio` file once it is handed to a thread.

* `not_counted_resumablePrefix` — the prefix is the longest one that the parts have counted.
* `interrupted_keeps_prefix` — a file that was cut is that prefix of the source, if no write was
  still in flight when it was cut and none of the prefix was lost.
* `interrupted_loses_byte` — otherwise it can have a hole that is counted.
-/

import HelmSsh.Transfer.Workers

namespace HelmSsh
namespace Transfer
namespace Workers

open ByteFile

/-- The parts have counted every byte in front of a position. -/
def CountedUpTo (s : State) (p : ℕ) : Prop :=
  ∀ k < p, ∃ w ∈ s.workers, w.part.start ≤ k ∧ k < w.part.start + w.part.counted

/-- What is promised of a file that was cut after an error: it is the prefix of the source of the
length that `contiguous_parallel_prefix` computed, the longest one that the parts have counted. -/
def KeepsPrefix (source : Bytes) (s : State) : Prop :=
  ∀ failure p, s.phase = .returned (.error failure) → s.truncated = some p →
    p ≤ source.length ∧ s.file = some (source.take p) ∧
      p = resumablePrefix s ∧ CountedUpTo s p ∧ ∀ q, CountedUpTo s q → q ≤ p

/-- When the file is cut, no write is in flight, and none in front of the cut was lost. -/
def Acknowledged (s : State) (event : Event) : Prop :=
  event = .truncate → s.pending = [] ∧ ∀ write ∈ s.lost, resumablePrefix s ≤ write.offset

instance (s : State) (event : Event) : Decidable (Acknowledged s event) :=
  inferInstanceAs (Decidable (_ → _))

variable {direction : Direction} {source : Bytes} {bufferSize : ℕ}

/-! ### The prefix -/

theorem Inv.countedUpTo {s : State} (hinv : Inv direction source s) :
    CountedUpTo s (resumablePrefix s) := by
  intro k hk
  obtain ⟨part, hpart, hlo, hhi⟩ := covered_of_lt_prefix hinv.chained (Nat.zero_le k)
    (show k < 0 + resumablePrefix s by omega)
  obtain ⟨w, hw, rfl⟩ := List.mem_map.mp hpart
  exact ⟨w, hw, hlo, by omega⟩

/-- **They have counted no longer one.** -/
theorem Inv.not_counted_resumablePrefix {s : State} (hinv : Inv direction source s) {q : ℕ}
    (hq : CountedUpTo s q) : q ≤ resumablePrefix s := by
  by_contra hlt
  obtain ⟨w, hw, hlo, hhi⟩ := hq (resumablePrefix s) (by omega)
  have hcounted : ∀ part ∈ s.workers.map Worker.part, part.counted ≤ part.len := by
    intro part hpart
    obtain ⟨v, hv, rfl⟩ := List.mem_map.mp hpart
    obtain ⟨i, hi⟩ := List.mem_iff_getElem?.mp hv
    exact (hinv.workers i v hi).counted_le
  have hend := not_counted_prefix hinv.chained hcounted w.part (List.mem_map_of_mem hw)
    (show w.part.start ≤ 0 + resumablePrefix s by omega)
  have hsame : 0 + contiguousParallelPrefix (s.workers.map Worker.part) = resumablePrefix s :=
    Nat.zero_add _
  omega

/-- The file that is cut when its prefix is acknowledged is a prefix of the source. -/
theorem Inv.setLen_eq {s : State} {file : Bytes} (hinv : Inv direction source s)
    (huncut : Uncut s.phase) (hfile : s.file = some file) (hpending : s.pending = [])
    (hlost : ∀ write ∈ s.lost, resumablePrefix s ≤ write.offset) :
    setLen 0 file (resumablePrefix s) = source.take (resumablePrefix s) := by
  have hprefix : setLen 0 file (resumablePrefix s) <+: source := by
    refine setLen_prefix hinv.prefix_le fun k hk => ?_
    obtain ⟨w, hw, hlo, hhi⟩ := hinv.countedUpTo k hk
    obtain ⟨i, hi⟩ := List.mem_iff_getElem?.mp hw
    rcases hinv.reached huncut i w hi k hlo hhi with
      ⟨bytes, hbytes, hcopied⟩ | ⟨write, hwrite, -, hstart, -⟩
    · obtain rfl := Option.some.inj (hfile.symm.trans hbytes)
      exact hcopied
    · rw [hpending, List.nil_append] at hwrite
      have := hlost write hwrite
      omega
  have htake := List.prefix_iff_eq_take.mp hprefix
  rw [length_setLen] at htake
  exact htake

/-! ### Runs -/

/-- The state of a transfer whose file was cut to a length. -/
structure Cut (source : Bytes) (s : State) (p : ℕ) : Prop where
  returned : ∃ result, s.phase = .returned result
  pending : s.pending = []
  prefix_eq : p = resumablePrefix s
  file : s.file = some (source.take p)

/-- Nothing but the flags changes after the transfer has returned with no write in flight. -/
theorem step_returned {s s' : State} {event : Event} {result : Except Failure Unit}
    (hphase : s.phase = .returned result) (hpending : s.pending = [])
    (h : step direction source bufferSize s event = some s') :
    ∃ cancel paused, s' = { s with cancel, paused } := by
  unfold Workers.step at h
  split at h
  case h_1 => exact ⟨true, s.paused, (Option.some.inj h).symm⟩
  case h_2 paused => exact ⟨s.cancel, paused, (Option.some.inj h).symm⟩
  case h_3 j =>
    rw [hpending] at h
    cases h
  case h_4 j =>
    rw [hpending] at h
    cases h
  case h_5 j bytes =>
    rw [hpending] at h
    cases h
  case h_6 =>
    rw [hphase] at h
    cases event <;> cases h

/-- A step of the transfer itself cuts the file, or leaves the record of the cut. -/
theorem mainStep_truncated {s s' : State} {event : Event} (hinv : Inv direction source s)
    (h : mainStep direction source bufferSize s s.phase event = some s') :
    s'.truncated = s.truncated ∨
      event = .truncate ∧ ∃ index error, s.phase = .truncating index error ∧
        s' = { s with
          file := s.file.map fun file => setLen 0 file (resumablePrefix s)
          truncated := some (resumablePrefix s)
          phase := .returned (.error (.part index error)) } := by
  unfold mainStep at h
  split at h
  case h_3 i move hphase =>
    obtain ⟨w, hw, hstep⟩ := Option.bind_eq_some_iff.mp h
    obtain ⟨w', issued, cancel, rfl, -⟩ := workerStep_spec (hinv.workers i w hw)
      (hinv.part_le hw) (hinv.quiet i w hw) hstep
    exact .inl rfl
  case h_4 =>
    split at h
    · exact .inl (by rw [← Option.some.inj h])
    · cases h
  case h_5 index error hphase =>
    exact .inr ⟨rfl, index, error, hphase, (Option.some.inj h).symm⟩
  case h_10 =>
    obtain ⟨file, -, rfl⟩ := Option.map_eq_some_iff.mp h
    split_ifs
    · exact .inl rfl
    · exact .inl rfl
  case h_12 => cases h
  all_goals exact .inl (by rw [← Option.some.inj h])

/-- A step cuts the file, or leaves the record of the cut. -/
theorem step_truncated {s s' : State} {event : Event} (hinv : Inv direction source s)
    (h : step direction source bufferSize s event = some s') :
    s'.truncated = s.truncated ∨
      event = .truncate ∧ ∃ index error, s.phase = .truncating index error ∧
        s' = { s with
          file := s.file.map fun file => setLen 0 file (resumablePrefix s)
          truncated := some (resumablePrefix s)
          phase := .returned (.error (.part index error)) } := by
  rcases step_cases h with hmain | ⟨-, cancel, paused, file, pending, lost, rfl, -⟩
  · exact mainStep_truncated hinv hmain
  · exact .inl rfl

theorem Cut.step {s s' : State} {event : Event} (hinv : Inv direction source s)
    (hcut : ∀ p, s.truncated = some p → Cut source s p) (hok : Acknowledged s event)
    (h : step direction source bufferSize s event = some s') :
    ∀ p, s'.truncated = some p → Cut source s' p := by
  intro p hp
  rcases step_truncated hinv h with hsame | ⟨htruncate, index, error, hphase, rfl⟩
  · have hbefore := hcut p (hsame.symm.trans hp)
    obtain ⟨result, hresult⟩ := hbefore.returned
    obtain ⟨cancel, paused, rfl⟩ := step_returned hresult hbefore.pending h
    exact ⟨hbefore.returned, hbefore.pending, hbefore.prefix_eq, hbefore.file⟩
  · obtain rfl := Option.some.inj hp
    obtain ⟨hpending, hlost⟩ := hok htruncate
    have huncut : Uncut s.phase := by
      rw [hphase]
      trivial
    refine ⟨⟨_, rfl⟩, hpending, rfl, ?_⟩
    show (s.file.map fun file => setLen 0 file (resumablePrefix s)) = _
    cases hfile : s.file with
    | none =>
      obtain ⟨-, -, hfresh⟩ := hinv.unopened huncut hfile
      obtain ⟨w, hw, error, hfailed⟩ := hinv.failed (.inl ⟨index, error, hphase⟩)
      obtain ⟨-, todo, hpreparing⟩ := hfresh w hw
      rw [Worker.failed, hpreparing] at hfailed
      cases hfailed
    | some file => exact congrArg some (hinv.setLen_eq huncut hfile hpending hlost)

/-- **An interrupted transfer keeps a usable prefix**, in every run that cuts the file only when no
write is in flight and none in front of the cut was lost. -/
theorem interrupted_keeps_prefix (direction : Direction) (source : Bytes) (bufferSize parts : ℕ)
    (hparts : 0 < parts) (events : List Event) (s : State)
    (hrun : (transfer direction source bufferSize parts).run events = some s)
    (hok : (transfer direction source bufferSize parts).Meets Acknowledged events) :
    KeepsPrefix source s := by
  have hinv : Inv direction source s ∧ ∀ p, s.truncated = some p → Cut source s p := by
    refine Machine.run_invariant_of
      (I := fun s => Inv direction source s ∧ ∀ p, s.truncated = some p → Cut source s p)
      ⟨inv_init hparts, ?_⟩ ?_ hok hrun
    · intro p hp
      cases hp
    · rintro s event s' ⟨hinv, hcut⟩ hok hstep
      exact ⟨Inv.step hinv hstep, Cut.step hinv hcut hok hstep⟩
  rintro failure p - hp
  have hcut := hinv.2 p hp
  have hsame := hcut.prefix_eq
  refine ⟨?_, hcut.file, hsame, ?_, ?_⟩
  · rw [hsame]
    exact hinv.1.prefix_le
  · rw [hsame]
    exact hinv.1.countedUpTo
  · intro q hq
    rw [hsame]
    exact hinv.1.not_counted_resumablePrefix hq

/-- The second of two parts fails after the first one has written its byte. -/
theorem interrupted_keeps_prefix_two : ∃ s,
    (transfer .upload [7, 9] 4 2).run
      [.opened, .worker 0 .done, .worker 0 .done, .worker 0 .look, .worker 0 .look,
        .worker 0 (.read 1), .worker 0 .look, .worker 0 .done, .worker 0 .look, .perform 0,
        .worker 0 .done, .worker 1 (.fail (.remote "open failed") 0), .join, .truncate] =
        some s ∧
      KeepsPrefix [7, 9] s := by
  refine (Option.isSome_iff_exists.mp (by decide)).imp fun s hs => ⟨hs, ?_⟩
  exact interrupted_keeps_prefix .upload [7, 9] 4 2 (by decide) _ s hs (by decide)

/-- **A byte that was counted can be missing.**  The write of the first part is lost; its
acknowledgement fails when the handle is closed, after the byte was counted. -/
theorem interrupted_loses_byte : ¬ ∀ direction source bufferSize parts, 0 < parts →
    ∀ events s, (transfer direction source bufferSize parts).run events = some s →
      KeepsPrefix source s := by
  intro h
  have hrun : ∃ s,
      (transfer .upload [7, 9] 4 2).run
        [.opened, .worker 0 .done, .worker 0 .done, .worker 0 .look, .worker 0 .look,
          .worker 0 (.read 1), .worker 0 .look, .worker 0 .done, .worker 0 .look, .lose 0,
          .worker 0 (.fail (.remote "write failed") 0),
          .worker 1 (.fail (.remote "open failed") 0), .join, .truncate] = some s ∧
        s.phase = .returned (.error (.part 0 (.met (.remote "write failed")))) ∧
        s.truncated = some 1 ∧ s.file = some [0] :=
    ⟨_, rfl, rfl, rfl, rfl⟩
  obtain ⟨s, hs, hphase, htruncated, hfile⟩ := hrun
  obtain ⟨-, hkept, -⟩ := h .upload [7, 9] 4 2 (by decide) _ s hs _ 1 hphase htruncated
  rw [hfile] at hkept
  exact absurd hkept (by decide)

end Workers
end Transfer
end HelmSsh
