/-
# Two processes that exchange bytes

A sequential process reads an exact number of bytes at a time, writes bytes, and ends with a
result or an error (`Process`).  Two of them talk over two byte streams.  What arrives is read in
pieces of any size (`Party.got` holds those of a read that is not complete), and the two take
their steps in any order.

* `Accepts` — what a process makes of an input, apart from how it arrives: the rules of its
  constructors and of `bind`, and `accepts_of_run`, for a process whose peer sends anything.
* `Converse` — one order of steps in which two processes come to their results and nothing is
  left unread.  `Net.Agreed.step` and `agreed_of_run`: then they do in every order, for all ways in
  which the bytes arrive.
* `Net.Converges` — what that means: neither fails, what either sends after its end is not touched,
  and at every moment the two can still come to their ends (`Net.Agreed.completes`).
-/

import HelmSsh.Machine
import Mathlib.Data.Nat.Notation
import Mathlib.Tactic.Common

/-- A process that reads and writes bytes. -/
inductive Process (ε α : Type) where
  /-- Reads exactly so many bytes. -/
  | read (n : ℕ) (next : List UInt8 → Process ε α)
  | write (bytes : List UInt8) (next : Process ε α)
  | done (a : α)
  | fail (error : ε)

namespace Process

variable {ε α β : Type}

/-- One process after another. -/
def bind (p : Process ε α) (f : α → Process ε β) : Process ε β :=
  match p with
  | read n next => read n fun bytes => (next bytes).bind f
  | write bytes next => write bytes (next.bind f)
  | done a => f a
  | fail error => fail error

instance : Monad (Process ε) where
  pure := done
  bind := bind

/-- `read_exact`. -/
def readExact (n : ℕ) : Process ε (List UInt8) :=
  read n done

/-- `write_all`. -/
def writeAll (bytes : List UInt8) : Process ε Unit :=
  write bytes (done ())

theorem bind_assoc {γ : Type} (p : Process ε α) (f : α → Process ε β) (g : β → Process ε γ) :
    (p.bind f).bind g = p.bind fun a => (f a).bind g := by
  induction p with
  | read n next ih =>
    simp only [bind]
    exact congrArg (read n) (funext ih)
  | write bytes next ih =>
    simp only [bind]
    exact congrArg (write bytes) ih
  | done a => rfl
  | fail error => rfl

/-! ### What a process makes of its input -/

/-- With this input the process comes to this result, and leaves this rest unread. -/
inductive Accepts : Process ε α → List UInt8 → α → List UInt8 → Prop
  | read {n : ℕ} {next : List UInt8 → Process ε α} {bytes input rest : List UInt8} {a : α}
    (hlength : bytes.length = n) (h : Accepts (next bytes) input a rest) :
    Accepts (read n next) (bytes ++ input) a rest
  | write {bytes input rest : List UInt8} {next : Process ε α} {a : α}
    (h : Accepts next input a rest) : Accepts (write bytes next) input a rest
  | done (a : α) (rest : List UInt8) : Accepts (done a) rest a rest

theorem accepts_done {a b : α} {input rest : List UInt8} :
    Accepts (done a : Process ε α) input b rest ↔ b = a ∧ rest = input := by
  constructor
  · intro h
    cases h
    exact ⟨rfl, rfl⟩
  · rintro ⟨rfl, rfl⟩
    exact .done _ _

theorem not_accepts_fail {error : ε} {input rest : List UInt8} {a : α} :
    ¬ Accepts (fail error : Process ε α) input a rest := by
  intro h
  cases h

theorem accepts_read {n : ℕ} {next : List UInt8 → Process ε α} {input rest : List UInt8} {a : α} :
    Accepts (read n next) input a rest ↔ ∃ bytes more, bytes.length = n ∧ input = bytes ++ more ∧
      Accepts (next bytes) more a rest := by
  constructor
  · intro h
    cases h with
    | read hlength h => exact ⟨_, _, hlength, rfl, h⟩
  · rintro ⟨bytes, more, hlength, rfl, h⟩
    exact .read hlength h

theorem accepts_write {bytes input rest : List UInt8} {next : Process ε α} {a : α} :
    Accepts (write bytes next) input a rest ↔ Accepts next input a rest := by
  constructor
  · intro h
    cases h with
    | write h => exact h
  · exact .write

/-- **The second of two processes goes on where the first one stops.** -/
theorem accepts_bind {p : Process ε α} {f : α → Process ε β} {input rest : List UInt8} {b : β} :
    Accepts (p >>= f) input b rest ↔
      ∃ a more, Accepts p input a more ∧ Accepts (f a) more b rest := by
  show Accepts (p.bind f) input b rest ↔ _
  induction p generalizing input with
  | read n next ih =>
    rw [bind, accepts_read]
    constructor
    · rintro ⟨bytes, more, hlength, rfl, h⟩
      obtain ⟨a, mid, hp, hf⟩ := (ih bytes).mp h
      exact ⟨a, mid, .read hlength hp, hf⟩
    · rintro ⟨a, mid, hp, hf⟩
      obtain ⟨bytes, more, hlength, rfl, hnext⟩ := accepts_read.mp hp
      exact ⟨bytes, more, hlength, rfl, (ih bytes).mpr ⟨a, mid, hnext, hf⟩⟩
  | write bytes next ih =>
    rw [bind, accepts_write, ih]
    constructor
    · rintro ⟨a, mid, hp, hf⟩
      exact ⟨a, mid, .write hp, hf⟩
    · rintro ⟨a, mid, hp, hf⟩
      exact ⟨a, mid, accepts_write.mp hp, hf⟩
  | done a =>
    rw [bind]
    constructor
    · exact fun h => ⟨a, input, .done a input, h⟩
    · rintro ⟨a', mid, hp, hf⟩
      obtain ⟨rfl, rfl⟩ := accepts_done.mp hp
      exact hf
  | fail error =>
    rw [bind]
    constructor
    · exact fun h => absurd h not_accepts_fail
    · rintro ⟨a, mid, hp, -⟩
      exact absurd hp not_accepts_fail

theorem accepts_readExact {n : ℕ} {bytes input rest : List UInt8} :
    Accepts (readExact n : Process ε (List UInt8)) input bytes rest ↔
      bytes.length = n ∧ input = bytes ++ rest := by
  rw [readExact, accepts_read]
  constructor
  · rintro ⟨bytes', more, hlength, rfl, hdone⟩
    obtain ⟨rfl, rfl⟩ := accepts_done.mp hdone
    exact ⟨hlength, rfl⟩
  · rintro ⟨hlength, rfl⟩
    exact ⟨bytes, rest, hlength, rfl, .done bytes rest⟩

theorem accepts_writeAll {bytes input rest : List UInt8} :
    Accepts (writeAll bytes : Process ε Unit) input () rest ↔ rest = input := by
  rw [writeAll, accepts_write, accepts_done, and_iff_right rfl]

theorem Accepts.unique {p : Process ε α} {input rest rest' : List UInt8} {a a' : α}
    (h : Accepts p input a rest) (h' : Accepts p input a' rest') : a = a' ∧ rest = rest' := by
  induction h with
  | read hlength _ ih =>
    obtain ⟨bytes', more', hlength', hinput, h'⟩ := accepts_read.mp h'
    obtain ⟨rfl, rfl⟩ := List.append_inj hinput (hlength.trans hlength'.symm)
    exact ih h'
  | write _ ih => exact ih (accepts_write.mp h')
  | done a rest =>
    obtain ⟨rfl, rfl⟩ := accepts_done.mp h'
    exact ⟨rfl, rfl⟩

end Process

/-! ### A party, and how its input arrives -/

/-- A process with the bytes of a read that is not complete. -/
structure Party (ε α : Type) where
  process : Process ε α
  got : List UInt8

/-- What a party does. -/
inductive PartyMove
  | write
  /-- One call of `read` yields so many bytes. -/
  | receive (n : ℕ)
  /-- The bytes of a read are there. -/
  | proceed
  deriving DecidableEq

namespace Party

variable {ε α : Type}

/-- A step, with the unread input: the party, the rest of the input, and what is written. -/
def move (p : Party ε α) (input : List UInt8) :
    PartyMove → Option (Party ε α × List UInt8 × List UInt8)
  | .write =>
    match p.process with
    | .write bytes next => some (⟨next, p.got⟩, input, bytes)
    | _ => none
  | .receive n =>
    match p.process with
    | .read needed _ =>
      if 0 < n ∧ p.got.length + n ≤ needed ∧ n ≤ input.length then
        some (⟨p.process, p.got ++ input.take n⟩, input.drop n, [])
      else none
    | _ => none
  | .proceed =>
    match p.process with
    | .read needed next =>
      if p.got.length = needed then some (⟨next p.got, []⟩, input, []) else none
    | _ => none

/-- **What a party can do.** -/
theorem move_cases {p p' : Party ε α} {input input' output : List UInt8} {m : PartyMove}
    (h : p.move input m = some (p', input', output)) :
    (∃ next, p.process = .write output next ∧ p' = ⟨next, p.got⟩ ∧ input' = input) ∨
    (∃ needed next n, p.process = .read needed next ∧ p.got.length + n ≤ needed ∧
      n ≤ input.length ∧ p' = ⟨p.process, p.got ++ input.take n⟩ ∧ input' = input.drop n ∧
        output = []) ∨
    (∃ next, p.process = .read p.got.length next ∧ p' = ⟨next p.got, []⟩ ∧ input' = input ∧
      output = []) := by
  cases m with
  | write =>
    dsimp only [move] at h
    split at h
    case h_1 bytes next hprocess =>
      obtain ⟨rfl, rfl, rfl⟩ := by simpa only [Option.some.injEq, Prod.mk.injEq] using h
      exact .inl ⟨next, hprocess, rfl, rfl⟩
    case h_2 => cases h
  | receive n =>
    dsimp only [move] at h
    split at h
    case h_1 needed next hprocess =>
      split_ifs at h with hn
      obtain ⟨rfl, rfl, rfl⟩ := by simpa only [Option.some.injEq, Prod.mk.injEq] using h
      exact .inr (.inl ⟨needed, next, n, hprocess, hn.2.1, hn.2.2, rfl, rfl, rfl⟩)
    case h_2 => cases h
  | proceed =>
    dsimp only [move] at h
    split at h
    case h_1 needed next hprocess =>
      split_ifs at h with hlength
      obtain ⟨rfl, rfl, rfl⟩ := by simpa only [Option.some.injEq, Prod.mk.injEq] using h
      subst hlength
      exact .inr (.inr ⟨next, hprocess, rfl, rfl, rfl⟩)
    case h_2 => cases h

/-- Only a read has bytes, and no more than it needs. -/
def Sound (p : Party ε α) : Prop :=
  p.got = [] ∨ ∃ n next, p.process = .read n next ∧ p.got.length ≤ n

theorem Sound.got_eq {p : Party ε α} (h : p.Sound) (hnot : ∀ n next, p.process ≠ .read n next) :
    p.got = [] :=
  h.resolve_right <| by
    rintro ⟨n, next, hread, -⟩
    exact hnot n next hread

theorem Sound.move {p p' : Party ε α} {input input' output : List UInt8} {m : PartyMove}
    (h : p.Sound) (hmove : p.move input m = some (p', input', output)) : p'.Sound := by
  rcases move_cases hmove with ⟨next, hprocess, rfl, -⟩ |
    ⟨needed, next, n, hprocess, hle, -, rfl, -⟩ | ⟨next, -, rfl, -⟩
  · refine .inl (h.got_eq fun _ _ hread => ?_)
    rw [hprocess] at hread
    cases hread
  · refine .inr ⟨needed, next, hprocess, ?_⟩
    have htake := List.length_take_le n input
    rw [List.length_append]
    omega
  · exact .inl rfl

end Party

/-! ### One process, and a peer that sends anything -/

/-- A party, the bytes that it has not read, and all that arrived. -/
structure Listener (ε α : Type) where
  party : Party ε α
  unread : List UInt8
  arrived : List UInt8

/-- More bytes arrive, or the party goes on. -/
inductive ListenerEvent
  | arrive (bytes : List UInt8)
  | move (m : PartyMove)
  deriving DecidableEq

namespace Listener

variable {ε α : Type}

/-- One step. -/
def step (s : Listener ε α) : ListenerEvent → Option (Listener ε α)
  | .arrive bytes => some { s with unread := s.unread ++ bytes, arrived := s.arrived ++ bytes }
  | .move m => (s.party.move s.unread m).map fun next =>
      { s with party := next.1, unread := next.2.1 }

end Listener

/-- A process that listens. -/
def listening {ε α : Type} (p : Process ε α) : Machine (Listener ε α) ListenerEvent where
  init := { party := ⟨p, []⟩, unread := [], arrived := [] }
  step := Listener.step

namespace Listener

variable {ε α : Type} {p : Process ε α}

/-- **The invariant**: what the party will make of the rest, the process makes of everything. -/
structure Inv (p : Process ε α) (s : Listener ε α) : Prop where
  accepts : ∀ a more rest, s.party.process.Accepts (s.party.got ++ s.unread ++ more) a rest →
    p.Accepts (s.arrived ++ more) a rest
  sound : s.party.Sound

/-- **What one step preserves.** -/
theorem Inv.step {s s' : Listener ε α} {e : ListenerEvent} (h : Inv p s)
    (hstep : s.step e = some s') : Inv p s' := by
  cases e with
  | arrive bytes =>
    obtain rfl := Option.some.inj hstep
    refine ⟨fun a more rest hrest => ?_, h.sound⟩
    dsimp only at hrest ⊢
    rw [List.append_assoc]
    refine h.accepts a (bytes ++ more) rest ?_
    simpa only [List.append_assoc] using hrest
  | move m =>
    obtain ⟨⟨party, unread, output⟩, hmove, rfl⟩ := Option.map_eq_some_iff.mp hstep
    refine ⟨fun a more rest hrest => h.accepts a more rest ?_, h.sound.move hmove⟩
    rcases Party.move_cases hmove with ⟨next, hprocess, rfl, rfl⟩ |
      ⟨needed, next, n, -, -, -, rfl, rfl, -⟩ | ⟨next, hprocess, rfl, rfl, -⟩
    · rw [hprocess]
      exact .write hrest
    · dsimp only at hrest
      rwa [List.append_assoc s.party.got, List.take_append_drop] at hrest
    · rw [hprocess, List.append_assoc]
      exact .read rfl hrest

end Listener

/-- **What a process makes of its input does not depend on how it arrives**: when it is done, it
has accepted what has arrived, but for what is unread. -/
theorem Process.accepts_of_run {ε α : Type} {p : Process ε α} {events : List ListenerEvent}
    {s : Listener ε α} (h : (listening p).run events = some s) {a : α}
    (hdone : s.party.process = .done a) : p.Accepts s.arrived a s.unread := by
  have hinv : Listener.Inv p s := Machine.run_invariant
    ⟨fun a more rest hrest => hrest, .inl rfl⟩
    (fun _ _ _ hinv hstep => hinv.step hstep) h
  have hnil : s.party.got = [] := hinv.sound.got_eq fun _ _ hread => by
    rw [hdone] at hread
    cases hread
  have hall := hinv.accepts a [] s.unread (by
    rw [hdone, hnil, List.append_nil, List.nil_append]
    exact .done a s.unread)
  rwa [List.append_nil] at hall

/-! ### Two processes -/

/-- **One order of steps that leads two processes to their results**, with the bytes on their way
to each, and leaves nothing unread. -/
inductive Converse {ε α β : Type} :
    Process ε α → List UInt8 → Process ε β → List UInt8 → α → β → Prop
  | done (a : α) (b : β) : Converse (.done a) [] (.done b) [] a b
  | leftWrites {bytes xs ys : List UInt8} {next : Process ε α} {q : Process ε β} {a : α} {b : β}
    (h : Converse next xs q (ys ++ bytes) a b) : Converse (.write bytes next) xs q ys a b
  | leftReads {n : ℕ} {next : List UInt8 → Process ε α} {xs ys : List UInt8} {q : Process ε β}
    {a : α} {b : β} (bytes : List UInt8) (hlength : bytes.length = n)
    (h : Converse (next bytes) xs q ys a b) : Converse (.read n next) (bytes ++ xs) q ys a b
  | rightWrites {bytes xs ys : List UInt8} {p : Process ε α} {next : Process ε β} {a : α} {b : β}
    (h : Converse p (xs ++ bytes) next ys a b) : Converse p xs (.write bytes next) ys a b
  | rightReads {n : ℕ} {p : Process ε α} {next : List UInt8 → Process ε β} {xs ys : List UInt8}
    {a : α} {b : β} (bytes : List UInt8) (hlength : bytes.length = n)
    (h : Converse p xs (next bytes) ys a b) : Converse p xs (.read n next) (bytes ++ ys) a b

namespace Converse

variable {ε α β : Type} {p : Process ε α} {q : Process ε β} {xs ys : List UInt8} {a : α} {b : β}

theorem swap (h : Converse p xs q ys a b) : Converse q ys p xs b a := by
  induction h with
  | done a b => exact .done b a
  | leftWrites _ ih => exact .rightWrites ih
  | leftReads bytes hlength _ ih => exact .rightReads _ hlength ih
  | rightWrites _ ih => exact .leftWrites ih
  | rightReads bytes hlength _ ih => exact .leftReads _ hlength ih

/-- **A write can come first.** -/
theorem write_first {bytes : List UInt8} {next : Process ε α}
    (h : Converse (.write bytes next) xs q ys a b) : Converse next xs q (ys ++ bytes) a b := by
  generalize hp : Process.write bytes next = p at h
  induction h with
  | done a b => cases hp
  | leftWrites h _ =>
    obtain ⟨rfl, rfl⟩ := Process.write.inj hp
    exact h
  | leftReads bytes hlength _ _ => cases hp
  | rightWrites _ ih => exact .rightWrites (ih hp)
  | rightReads bytes hlength _ ih =>
    rw [List.append_assoc]
    exact .rightReads _ hlength (ih hp)

/-- **A read whose bytes are there can come first.** -/
theorem read_first {bytes : List UInt8} {next : List UInt8 → Process ε α}
    (h : Converse (.read bytes.length next) (bytes ++ xs) q ys a b) :
    Converse (next bytes) xs q ys a b := by
  generalize hp : Process.read bytes.length next = p at h
  generalize hinput : bytes ++ xs = input at h
  induction h generalizing xs with
  | done a b => cases hp
  | leftWrites h _ => cases hp
  | leftReads bytes hlength h _ =>
    obtain ⟨rfl, rfl⟩ := Process.read.inj hp
    obtain ⟨rfl, rfl⟩ := List.append_inj hinput hlength.symm
    exact h
  | rightWrites _ ih =>
    subst hinput
    exact .rightWrites (ih hp (List.append_assoc _ _ _).symm)
  | rightReads bytes hlength _ ih => exact .rightReads _ hlength (ih hp hinput)

theorem of_done {a' : α} (h : Converse (.done a') xs q ys a b) : a' = a ∧ xs = [] := by
  generalize hp : (Process.done a' : Process ε α) = p at h
  induction h with
  | done a b => exact ⟨Process.done.inj hp, rfl⟩
  | leftWrites h _ => cases hp
  | leftReads bytes hlength _ _ => cases hp
  | rightWrites _ ih =>
    obtain ⟨ha, hnil⟩ := ih hp
    exact ⟨ha, (List.append_eq_nil_iff.mp hnil).1⟩
  | rightReads _ _ _ ih => exact ih hp

theorem le_of_done {n : ℕ} {next : List UInt8 → Process ε α} {b' : β}
    (h : Converse (.read n next) xs (.done b') ys a b) : n ≤ xs.length := by
  cases h with
  | leftReads bytes hlength _ =>
    rw [List.length_append, hlength]
    exact Nat.le_add_right n _

theorem not_fail {error : ε} (h : Converse (.fail error) xs q ys a b) : False := by
  generalize hp : (Process.fail error : Process ε α) = p at h
  induction h with
  | done a b => cases hp
  | leftWrites h _ => cases hp
  | leftReads bytes hlength _ _ => cases hp
  | rightWrites _ ih => exact ih hp
  | rightReads _ _ _ ih => exact ih hp

end Converse

/-- Two parties, the bytes on their way to each, and what each has sent after its end. -/
structure Net (ε α β : Type) where
  left : Party ε α
  right : Party ε β
  toLeft : List UInt8
  toRight : List UInt8
  fromLeft : List UInt8
  fromRight : List UInt8

/-- A party goes on, or sends something after its end. -/
inductive NetEvent
  | left (m : PartyMove)
  | right (m : PartyMove)
  | leftSends (bytes : List UInt8)
  | rightSends (bytes : List UInt8)
  deriving DecidableEq

/-- The same of the other side. -/
def NetEvent.swap : NetEvent → NetEvent
  | left m => right m
  | right m => left m
  | leftSends bytes => rightSends bytes
  | rightSends bytes => leftSends bytes

namespace Net

variable {ε α β : Type}

/-- The same net, seen from the other side. -/
def swap (s : Net ε α β) : Net ε β α :=
  { left := s.right, right := s.left, toLeft := s.toRight, toRight := s.toLeft
    fromLeft := s.fromRight, fromRight := s.fromLeft }

/-- The left party goes on. -/
def moveLeft (s : Net ε α β) (m : PartyMove) : Option (Net ε α β) :=
  (s.left.move s.toLeft m).map fun next =>
    { s with left := next.1, toLeft := next.2.1, toRight := s.toRight ++ next.2.2 }

/-- The left party sends something after its end. -/
def sendLeft (s : Net ε α β) (bytes : List UInt8) : Option (Net ε α β) :=
  match s.left.process with
  | .done _ => some { s with toRight := s.toRight ++ bytes, fromLeft := s.fromLeft ++ bytes }
  | _ => none

/-- One step. -/
def step (s : Net ε α β) : NetEvent → Option (Net ε α β)
  | .left m => s.moveLeft m
  | .leftSends bytes => s.sendLeft bytes
  | .right m => (s.swap.moveLeft m).map swap
  | .rightSends bytes => (s.swap.sendLeft bytes).map swap

end Net

/-- Two processes that begin to talk. -/
def conversation {ε α β : Type} (p : Process ε α) (q : Process ε β) :
    Machine (Net ε α β) NetEvent where
  init :=
    { left := ⟨p, []⟩, right := ⟨q, []⟩, toLeft := [], toRight := [], fromLeft := []
      fromRight := [] }
  step := Net.step

namespace Net

variable {ε α β : Type} {s s' : Net ε α β} {a : α} {b : β}

/-- The unread bytes of the two processes.  What one sends after its end comes behind them. -/
structure At (s : Net ε α β) (xs ys : List UInt8) : Prop where
  left : s.left.Sound
  right : s.right.Sound
  toLeft : ∃ input, s.toLeft = input ++ s.fromRight ∧ xs = s.left.got ++ input
  toRight : ∃ input, s.toRight = input ++ s.fromLeft ∧ ys = s.right.got ++ input
  fromLeft : s.fromLeft ≠ [] → ∃ a, s.left.process = .done a
  fromRight : s.fromRight ≠ [] → ∃ b, s.right.process = .done b

theorem At.swap {xs ys : List UInt8} (h : s.At xs ys) : s.swap.At ys xs :=
  ⟨h.right, h.left, h.toRight, h.toLeft, h.fromRight, h.fromLeft⟩

theorem At.fromLeft_eq {xs ys : List UInt8} (h : s.At xs ys)
    (hnot : ∀ a, s.left.process ≠ .done a) : s.fromLeft = [] := by
  by_contra hsent
  obtain ⟨a, hdone⟩ := h.fromLeft hsent
  exact hnot a hdone

/-- **The two will come to these results.** -/
def Agreed (a : α) (b : β) (s : Net ε α β) : Prop :=
  ∃ xs ys, s.At xs ys ∧ Converse s.left.process xs s.right.process ys a b

theorem Agreed.swap (h : Agreed a b s) : Agreed b a s.swap := by
  obtain ⟨xs, ys, hat, hconverse⟩ := h
  exact ⟨ys, xs, hat.swap, hconverse.swap⟩

/-- **What a step of one side preserves.** -/
theorem Agreed.moveLeft (h : Agreed a b s) {m : PartyMove} (hmove : s.moveLeft m = some s') :
    Agreed a b s' := by
  obtain ⟨_, _, hat, hconverse⟩ := h
  obtain ⟨⟨party, input, output⟩, hparty, rfl⟩ := Option.map_eq_some_iff.mp hmove
  obtain ⟨xs, htoLeft, rfl⟩ := hat.toLeft
  obtain ⟨ys, htoRight, rfl⟩ := hat.toRight
  have hsound := hat.left.move hparty
  rcases Party.move_cases hparty with ⟨next, hprocess, rfl, rfl⟩ |
    ⟨needed, next, n, hprocess, hle, hin, rfl, rfl, rfl⟩ | ⟨next, hprocess, rfl, rfl, rfl⟩
  · have hnone : s.fromLeft = [] := hat.fromLeft_eq fun a' hdone => by
      rw [hprocess] at hdone
      cases hdone
    rw [hprocess] at hconverse
    refine ⟨_, _, ⟨hsound, hat.right, ⟨xs, htoLeft, rfl⟩, ⟨ys ++ output, ?_, rfl⟩,
      fun hsent => absurd hnone hsent, hat.fromRight⟩, ?_⟩
    · show s.toRight ++ output = ys ++ output ++ s.fromLeft
      rw [htoRight, hnone, List.append_nil, List.append_nil]
    · show Converse next (s.left.got ++ xs) s.right.process (s.right.got ++ (ys ++ output)) a b
      rw [← List.append_assoc]
      exact hconverse.write_first
  · have hxs : n ≤ xs.length := by
      by_cases hsent : s.fromRight = []
      · rwa [htoLeft, hsent, List.append_nil] at hin
      · obtain ⟨b', hdone⟩ := hat.fromRight hsent
        rw [hprocess, hdone] at hconverse
        have hneeded := hconverse.le_of_done
        rw [List.length_append] at hneeded
        omega
    refine ⟨_, _, ⟨hsound, hat.right, ⟨xs.drop n, ?_, rfl⟩, ⟨ys, ?_, rfl⟩, hat.fromLeft,
      hat.fromRight⟩, ?_⟩
    · show s.toLeft.drop n = xs.drop n ++ s.fromRight
      rw [htoLeft, List.drop_append_of_le_length hxs]
    · show s.toRight ++ [] = ys ++ s.fromLeft
      rw [List.append_nil, htoRight]
    · show Converse s.left.process (s.left.got ++ s.toLeft.take n ++ xs.drop n) _ _ a b
      rw [htoLeft, List.take_append_of_le_length hxs, List.append_assoc, List.take_append_drop]
      exact hconverse
  · rw [hprocess] at hconverse
    have hnone : s.fromLeft = [] := hat.fromLeft_eq fun a' hdone => by
      rw [hprocess] at hdone
      cases hdone
    refine ⟨_, _, ⟨hsound, hat.right, ⟨xs, htoLeft, rfl⟩, ⟨ys, ?_, rfl⟩,
      fun hsent => absurd hnone hsent, hat.fromRight⟩, hconverse.read_first⟩
    show s.toRight ++ [] = ys ++ s.fromLeft
    rw [List.append_nil, htoRight]

theorem Agreed.sendLeft (h : Agreed a b s) {bytes : List UInt8}
    (hsend : s.sendLeft bytes = some s') : Agreed a b s' := by
  obtain ⟨_, _, hat, hconverse⟩ := h
  unfold Net.sendLeft at hsend
  split at hsend
  case h_1 a' hdone =>
    obtain rfl := Option.some.inj hsend
    obtain ⟨ys, htoRight, rfl⟩ := hat.toRight
    refine ⟨_, _, ⟨hat.left, hat.right, hat.toLeft, ⟨ys, ?_, rfl⟩, fun _ => ⟨a', hdone⟩,
      hat.fromRight⟩, hconverse⟩
    show s.toRight ++ bytes = ys ++ (s.fromLeft ++ bytes)
    rw [htoRight, List.append_assoc]
  case h_2 => cases hsend

/-- **What one step preserves.** -/
theorem Agreed.step (h : Agreed a b s) {e : NetEvent} (hstep : s.step e = some s') :
    Agreed a b s' := by
  cases e with
  | left m => exact h.moveLeft hstep
  | leftSends bytes => exact h.sendLeft hstep
  | right m =>
    obtain ⟨t, ht, rfl⟩ := Option.map_eq_some_iff.mp hstep
    exact (h.swap.moveLeft ht).swap
  | rightSends bytes =>
    obtain ⟨t, ht, rfl⟩ := Option.map_eq_some_iff.mp hstep
    exact (h.swap.sendLeft ht).swap

/-- **A party that is done has come to its result**, and has read nothing that was sent after the
other's end. -/
theorem Agreed.of_done (h : Agreed a b s) {a' : α} (hdone : s.left.process = .done a') :
    a' = a ∧ s.left.got = [] ∧ s.toLeft = s.fromRight := by
  obtain ⟨_, _, hat, hconverse⟩ := h
  obtain ⟨xs, htoLeft, rfl⟩ := hat.toLeft
  rw [hdone] at hconverse
  obtain ⟨ha, hnil⟩ := hconverse.of_done
  obtain ⟨hgot, rfl⟩ := List.append_eq_nil_iff.mp hnil
  exact ⟨ha, hgot, htoLeft⟩

theorem Agreed.not_fail (h : Agreed a b s) (error : ε) : s.left.process ≠ .fail error := by
  intro hfail
  obtain ⟨_, _, -, hconverse⟩ := h
  rw [hfail] at hconverse
  exact hconverse.not_fail

/-! ### The results can be come to -/

/-- Some steps lead from one net to another. -/
def Reaches : Net ε α β → Net ε α β → Prop :=
  Relation.ReflTransGen fun s s' => ∃ e, s.step e = some s'

theorem Reaches.step {e : NetEvent} (h : s.step e = some s') : Reaches s s' :=
  .single ⟨e, h⟩

theorem step_swap {e : NetEvent} (h : s.step e = some s') : s.swap.step e.swap = some s'.swap := by
  cases e with
  | left m =>
    show (s.moveLeft m).map Net.swap = some s'.swap
    rw [show s.moveLeft m = some s' from h]
    rfl
  | leftSends bytes =>
    show (s.sendLeft bytes).map Net.swap = some s'.swap
    rw [show s.sendLeft bytes = some s' from h]
    rfl
  | right m =>
    obtain ⟨t, ht, rfl⟩ := Option.map_eq_some_iff.mp h
    exact ht
  | rightSends bytes =>
    obtain ⟨t, ht, rfl⟩ := Option.map_eq_some_iff.mp h
    exact ht

theorem Reaches.swap (h : Reaches s s') : Reaches s.swap s'.swap := by
  induction h with
  | refl => exact .refl
  | tail _ hstep ih =>
    obtain ⟨e, he⟩ := hstep
    exact ih.tail ⟨e.swap, step_swap he⟩

theorem At.write {xs ys bytes : List UInt8} {next : Process ε α} (h : s.At xs ys)
    (hprocess : s.left.process = .write bytes next) :
    ∃ s', Reaches s s' ∧ s'.left.process = next ∧ s'.right.process = s.right.process ∧
      s'.At xs (ys ++ bytes) := by
  obtain ⟨input, htoRight, rfl⟩ := h.toRight
  have hnone : s.fromLeft = [] := h.fromLeft_eq fun a hdone => by
    rw [hprocess] at hdone
    cases hdone
  have hmove : s.left.move s.toLeft .write = some (⟨next, s.left.got⟩, s.toLeft, bytes) := by
    rw [Party.move, hprocess]
  have hstep : s.step (.left .write) =
      some { s with left := ⟨next, s.left.got⟩, toRight := s.toRight ++ bytes } := by
    show (s.left.move s.toLeft .write).map _ = _
    rw [hmove]
    rfl
  refine ⟨_, Reaches.step hstep, rfl, rfl, h.left.move hmove, h.right, h.toLeft,
    ⟨input ++ bytes, ?_, ?_⟩, fun hsent => absurd hnone hsent, h.fromRight⟩
  · show s.toRight ++ bytes = input ++ bytes ++ s.fromLeft
    rw [htoRight, hnone, List.append_nil, List.append_nil]
  · exact List.append_assoc _ _ _

theorem At.read {xs ys bytes : List UInt8} {n : ℕ} {next : List UInt8 → Process ε α}
    (h : s.At (bytes ++ xs) ys) (hprocess : s.left.process = .read n next)
    (hlength : bytes.length = n) :
    ∃ s', Reaches s s' ∧ s'.left.process = next bytes ∧ s'.right.process = s.right.process ∧
      s'.At xs ys := by
  obtain ⟨input, htoLeft, hinput⟩ := h.toLeft
  have hgot : s.left.got.length ≤ n := by
    rcases h.left with hnil | ⟨m, other, hread, hle⟩
    · rw [hnil]
      exact Nat.zero_le n
    · obtain ⟨rfl, -⟩ := Process.read.inj (hread.symm.trans hprocess)
      exact hle
  obtain ⟨more, rfl, hmore⟩ : ∃ more, bytes = s.left.got ++ more ∧ input = more ++ xs := by
    rcases List.append_eq_append_iff.mp hinput with ⟨more, hmore, hin⟩ | ⟨more, hmore, hin⟩
    · have hnil : more = [] := by
        have hsum := congrArg List.length hmore
        rw [List.length_append] at hsum
        exact List.eq_nil_of_length_eq_zero (by omega)
      subst hnil
      rw [List.append_nil] at hmore
      exact ⟨[], by rw [hmore, List.append_nil], hin.symm⟩
    · exact ⟨more, hmore, hin⟩
  rw [List.length_append] at hlength
  -- the bytes that are missing are read at once
  obtain ⟨t, hreach, htprocess, htgot, htright, ht⟩ : ∃ t : Net ε α β, Reaches s t ∧
      t.left.process = .read n next ∧ t.left.got = s.left.got ++ more ∧
        t.right.process = s.right.process ∧ t.At (s.left.got ++ more ++ xs) ys ∧
          t.toLeft = xs ++ t.fromRight := by
    cases hmissing : more with
    | nil =>
      subst hmissing
      rw [List.append_nil]
      refine ⟨s, .refl, hprocess, rfl, rfl, ?_, ?_⟩
      · rwa [List.append_nil] at h
      · rw [htoLeft, hmore, List.nil_append]
    | cons first others =>
      rw [← hmissing]
      have hpos : 0 < more.length := by
        rw [hmissing]
        exact Nat.succ_pos _
      have hall : s.toLeft = more ++ (xs ++ s.fromRight) := by
        rw [htoLeft, hmore, List.append_assoc]
      have hmove : s.left.move s.toLeft (.receive more.length) =
          some (⟨s.left.process, s.left.got ++ more⟩, xs ++ s.fromRight, []) := by
        dsimp only [Party.move]
        rw [hprocess]
        dsimp only
        rw [if_pos ⟨hpos, by omega, by rw [hall, List.length_append]; omega⟩, hall,
          List.take_left, List.drop_left]
      have hstep : s.step (.left (.receive more.length)) = some { s with
          left := ⟨s.left.process, s.left.got ++ more⟩
          toLeft := xs ++ s.fromRight
          toRight := s.toRight ++ [] } := by
        show (s.left.move s.toLeft (.receive more.length)).map _ = _
        rw [hmove]
        rfl
      refine ⟨_, Reaches.step hstep, hprocess, rfl, rfl,
        ⟨h.left.move hmove, h.right, ⟨xs, rfl, rfl⟩, ?_, h.fromLeft, h.fromRight⟩, rfl⟩
      rw [List.append_nil]
      exact h.toRight
  have hmove : t.left.move t.toLeft .proceed =
      some (⟨next (s.left.got ++ more), []⟩, t.toLeft, []) := by
    dsimp only [Party.move]
    rw [htprocess]
    dsimp only
    rw [if_pos (by rw [htgot, List.length_append, hlength]), htgot]
  have hstep : t.step (.left .proceed) = some { t with
      left := ⟨next (s.left.got ++ more), []⟩
      toRight := t.toRight ++ [] } := by
    show (t.left.move t.toLeft .proceed).map _ = _
    rw [hmove]
    rfl
  refine ⟨_, hreach.trans (Reaches.step hstep), rfl, htright, .inl rfl, ht.1.right,
    ⟨xs, ht.2, rfl⟩, ?_, fun hsent => ?_, ht.1.fromRight⟩
  · rw [List.append_nil]
    exact ht.1.toRight
  · obtain ⟨a, hdone⟩ := ht.1.fromLeft hsent
    rw [htprocess] at hdone
    cases hdone

/-- **The two can come to their results.** -/
theorem At.completes {p : Process ε α} {q : Process ε β} {xs ys : List UInt8}
    (h : Converse p xs q ys a b) {s : Net ε α β} (hat : s.At xs ys) (hp : s.left.process = p)
    (hq : s.right.process = q) :
    ∃ s', Reaches s s' ∧ s'.left.process = .done a ∧ s'.right.process = .done b := by
  induction h generalizing s with
  | done a b => exact ⟨s, .refl, hp, hq⟩
  | leftWrites _ ih =>
    obtain ⟨t, hreach, hleft, hright, ht⟩ := hat.write hp
    obtain ⟨s', hs', hdone⟩ := ih ht hleft (hright.trans hq)
    exact ⟨s', hreach.trans hs', hdone⟩
  | leftReads bytes hlength _ ih =>
    obtain ⟨t, hreach, hleft, hright, ht⟩ := hat.read hp hlength
    obtain ⟨s', hs', hdone⟩ := ih ht hleft (hright.trans hq)
    exact ⟨s', hreach.trans hs', hdone⟩
  | rightWrites _ ih =>
    obtain ⟨t, hreach, hright, hleft, ht⟩ := hat.swap.write (show s.swap.left.process = _ from hq)
    obtain ⟨s', hs', hdone⟩ := ih ht.swap (hleft.trans hp) hright
    exact ⟨s', (Reaches.swap hreach).trans hs', hdone⟩
  | rightReads bytes hlength _ ih =>
    obtain ⟨t, hreach, hright, hleft, ht⟩ :=
      hat.swap.read (show s.swap.left.process = _ from hq) hlength
    obtain ⟨s', hs', hdone⟩ := ih ht.swap (hleft.trans hp) hright
    exact ⟨s', (Reaches.swap hreach).trans hs', hdone⟩

/-- **At every moment the two can still come to their results.** -/
theorem Agreed.completes (h : Agreed a b s) :
    ∃ s', Reaches s s' ∧ s'.left.process = .done a ∧ s'.right.process = .done b := by
  obtain ⟨xs, ys, hat, hconverse⟩ := h
  exact At.completes hconverse hat rfl rfl

end Net

/-- **Two processes understand each other**, with these results: neither fails, what is sent after
the end is not touched, and they can come to their ends. -/
structure Net.Converges {ε α β : Type} (a : α) (b : β) (s : Net ε α β) : Prop where
  left_ne_fail : ∀ error, s.left.process ≠ .fail error
  right_ne_fail : ∀ error, s.right.process ≠ .fail error
  left_done : ∀ a', s.left.process = .done a' → a' = a ∧ s.left.got = [] ∧ s.toLeft = s.fromRight
  right_done : ∀ b', s.right.process = .done b' → b' = b ∧ s.right.got = [] ∧
    s.toRight = s.fromLeft
  completes : ∃ s', Net.Reaches s s' ∧ s'.left.process = .done a ∧ s'.right.process = .done b

theorem Net.Agreed.converges {ε α β : Type} {a : α} {b : β} {s : Net ε α β} (h : s.Agreed a b) :
    s.Converges a b :=
  ⟨h.not_fail, h.swap.not_fail, fun _ hdone => h.of_done hdone,
    fun _ hdone => h.swap.of_done hdone, h.completes⟩

/-- **Two processes that can talk to each other do so in every run.** -/
theorem agreed_of_run {ε α β : Type} {p : Process ε α} {q : Process ε β} {a : α} {b : β}
    (h : Converse p [] q [] a b) {events : List NetEvent} {s : Net ε α β}
    (hrun : (conversation p q).run events = some s) : s.Agreed a b :=
  Machine.run_invariant
    ⟨[], [], ⟨.inl rfl, .inl rfl, ⟨[], rfl, rfl⟩, ⟨[], rfl, rfl⟩, fun hsent => absurd rfl hsent,
      fun hsent => absurd rfl hsent⟩, h⟩
    (fun _ _ _ hinv hstep => hinv.step hstep) hrun
