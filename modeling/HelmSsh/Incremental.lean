/-
# Decoding an input that arrives in pieces

An incremental decoder turns the front of its input into output and leaves the rest, or asks
for more input (`Incremental`).  Once it has found an output, input that arrives later does not
change it (`Incremental.stable`).  So the input may be cut anywhere: decoding two pieces one after
the other, with what the first left over put before the second, is decoding both at once
(`decode_append`).
-/

import Mathlib.Data.Nat.Notation
import Mathlib.Tactic.Common

/-- A decoder that works at the front of its input. -/
structure Incremental (α β : Type) where
  /-- The output at the front of the input and what is left of the input, or nothing when the
  input may still go on. -/
  next : List α → Option (List β × List α)
  shorter : ∀ {input rest : List α} {out : List β},
    next input = some (out, rest) → rest.length < input.length
  stable : ∀ {input rest : List α} {out : List β} (more : List α),
    next input = some (out, rest) → next (input ++ more) = some (out, rest ++ more)

namespace Incremental

variable {α β : Type} (D : Incremental α β)

/-- At most so many steps from the front of the input. -/
def drain : ℕ → List α → List β × List α
  | 0, input => ([], input)
  | fuel + 1, input =>
    match D.next input with
    | none => ([], input)
    | some (out, rest) => (out ++ (drain fuel rest).1, (drain fuel rest).2)

/-- What the input decodes to, and what is held back of it. -/
def decode (input : List α) : List β × List α :=
  D.drain input.length input

theorem drain_none (fuel : ℕ) {input : List α} (h : D.next input = none) :
    D.drain fuel input = ([], input) := by
  cases fuel with
  | zero => rfl
  | succ fuel => rw [drain, h]

/-- Every step takes something off the input, so its length is as good a bound as any. -/
theorem drain_eq {fuel : ℕ} {input : List α} (h : input.length ≤ fuel) :
    D.drain fuel input = D.decode input := by
  induction hn : input.length using Nat.strongRecOn generalizing fuel input with
  | _ n ih =>
    cases hstep : D.next input with
    | none => rw [decode, D.drain_none _ hstep, D.drain_none _ hstep]
    | some found =>
      obtain ⟨out, rest⟩ := found
      have hshort := D.shorter hstep
      obtain ⟨fuel, rfl⟩ : ∃ k, fuel = k + 1 := ⟨fuel - 1, by omega⟩
      obtain ⟨k, hk⟩ : ∃ k, input.length = k + 1 := ⟨input.length - 1, by omega⟩
      have hleft : D.drain fuel rest = D.decode rest := ih rest.length (by omega) (by omega) rfl
      have hright : D.drain k rest = D.decode rest := ih rest.length (by omega) (by omega) rfl
      rw [decode, hk, drain, drain, hstep]
      dsimp only
      rw [hleft, hright]

theorem decode_none {input : List α} (h : D.next input = none) : D.decode input = ([], input) :=
  D.drain_none _ h

theorem decode_some {input rest : List α} {out : List β} (h : D.next input = some (out, rest)) :
    D.decode input = (out ++ (D.decode rest).1, (D.decode rest).2) := by
  have hshort := D.shorter h
  rw [← D.drain_eq (Nat.le_succ input.length), drain, h]
  dsimp only
  rw [D.drain_eq (by omega)]

/-- **Induction along the decoding of an input.** -/
theorem decode_induction {motive : List α → Prop}
    (none : ∀ input, D.next input = none → motive input)
    (some : ∀ input out rest, D.next input = some (out, rest) → motive rest → motive input)
    (input : List α) : motive input := by
  induction hn : input.length using Nat.strongRecOn generalizing input with
  | _ n ih =>
    cases hstep : D.next input with
    | none => exact none input hstep
    | some found =>
      obtain ⟨out, rest⟩ := found
      have hshort := D.shorter hstep
      exact some input out rest hstep (ih rest.length (by omega) rest rfl)

theorem next_held (input : List α) : D.next (D.decode input).2 = none := by
  induction input using D.decode_induction with
  | none input h => rw [D.decode_none h, h]
  | some input out rest h ih => rw [D.decode_some h, ih]

theorem decode_held (input : List α) :
    D.decode (D.decode input).2 = ([], (D.decode input).2) :=
  D.decode_none (D.next_held input)

/-- **The input may be cut anywhere**: what the first piece leaves over goes before the second. -/
theorem decode_append (first second : List α) :
    D.decode (first ++ second)
      = ((D.decode first).1 ++ (D.decode ((D.decode first).2 ++ second)).1,
          (D.decode ((D.decode first).2 ++ second)).2) := by
  induction first using D.decode_induction with
  | none input h =>
    rw [D.decode_none h, List.nil_append]
  | some input out rest h ih =>
    rw [D.decode_some h, D.decode_some (D.stable second h), ih, List.append_assoc]

end Incremental
