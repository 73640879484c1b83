/-
# Configuration mutations and replacements

`ConfigMutationCoordinator` (`src-tauri/src/config_mutation.rs`) lets a command
that changes the vault take a ticket, the current epoch, when it begins, and a
guard on the gate before it writes; `lock` refuses the guard when the epoch has
moved on or is odd.  A whole-configuration replacement owns the gate and makes
the epoch odd until it ends.

The commands are of two kinds.

* A desktop command (`src-tauri/src/commands`) calls the vault in the task that
  owns the guard, with no await in between.
* A REST handler (`src-tauri/src/api_server/handlers_admin.rs`) hands its vault
  closure to `spawn_blocking` (`vault_blocking`) and awaits it with the guard in
  the request future.  When the client goes away the future is dropped, and the
  guard with it, while the closure is still going to run.

`rest_backup_run` and `backup_run_now` lock twice with one ticket: once to read
the plan, and once more to write the records.  The replacements are backup import,
record restore, `vault_migrate` and `vault_skip_migration`.

The machine interleaves any number of commands and replacements, with a request
dropped at any await.  The epoch is that of `ConfigMutation.Coordinator`, an
`AtomicU64` that starts again at 0 when it has counted to its end.  How the gate is
granted is modelled there; here a task takes it when it is free.  The locks on tunnel
and backup operations, which some commands take in addition, are left out: without them
there are only more interleavings.

* `no_mutation_crosses` — as long as no replacement takes the gate while the
  closure of a dropped request is unfinished, and no command gets the gate when the
  epoch has come round to its ticket, a write reaches the vault only if no
  replacement began, ran or ended since its command took its ticket;
* `orphaned_write_crosses` — without the first condition a closure that was queued
  before an import writes to the imported configuration.
-/

import HelmSsh.ConfigMutation.Coordinator
import HelmSsh.Errors

namespace HelmSsh
namespace ConfigMutation

/-- How many replacements have begun and how many have ended. -/
@[ext] structure Clock where
  started : ℕ
  finished : ℕ
  deriving DecidableEq

/-- How often the epoch has been advanced. -/
def Clock.count (c : Clock) : ℕ :=
  c.started + c.finished

/-- A vault closure: the new configuration, or none when it returns an error. -/
abbrev Mutation (D : Type*) := D → Option D

/-- Who runs the vault closure. -/
inductive CommandKind where
  /-- A REST handler, through `vault_blocking`. -/
  | rest
  /-- A desktop command, through `with_store`. -/
  | desktop
  deriving DecidableEq

/-- How far a command has come. -/
inductive Phase (D : Type*) where
  /-- Awaiting the gate in `lock(ticket)`. -/
  | waiting
  /-- Owning the guard: validating and preparing. -/
  | locked
  /-- Between the two locks of a backup run. -/
  | unlocked
  /-- Awaiting the closure on a blocking thread, with the guard. -/
  | spawned (closure : Mutation D)
  /-- The closure has run; the handler has not returned. -/
  | applied
  /-- The future was dropped; the closure is still to run. -/
  | orphaned (closure : Mutation D)
  | done

/-- The command owns the guard. -/
def Phase.holds {D : Type*} : Phase D → Bool
  | .locked | .spawned _ | .applied => true
  | _ => false

/-- Only the closure of the command is left. -/
def Phase.isOrphaned {D : Type*} : Phase D → Bool
  | .orphaned _ => true
  | _ => false

/-- A command that changes the configuration. -/
structure Command (D : Type*) where
  kind : CommandKind
  /-- The ticket: the epoch when the command began. -/
  ticket : ℕ
  /-- The replacements when the command began. -/
  begun : Clock
  phase : Phase D

/-- A change of the vault by a command. -/
structure Write (D : Type*) where
  command : ℕ
  mutation : Mutation D
  /-- The replacements when the command began. -/
  begun : Clock
  /-- The replacements when the closure ran. -/
  applied : Clock

/-- Who owns the gate. -/
inductive GateHolder where
  | mutation (command : ℕ)
  | replacement
  deriving DecidableEq

/-- The coordinator, the vault, and the commands so far. -/
structure State (D : Type*) where
  epoch : ℕ
  gate : Option GateHolder
  commands : List (Command D)
  data : D
  clock : Clock
  /-- All changes by commands, oldest first. -/
  writes : List (Write D)
  /-- What the last replacement put into the vault. -/
  imported : D
  /-- How many replacements had begun when it did. -/
  importedAt : ℕ
  /-- The changes since then. -/
  later : List (Write D)

/-- One step of a command. -/
inductive CommandEvent (D : Type*) where
  /-- `lock(ticket)` gets the gate. -/
  | lock
  /-- The validation guard of a backup run is dropped. -/
  | unlock
  /-- `lock(ticket)` again, with the same ticket. -/
  | relock
  | spawnBlocking (closure : Mutation D)
  | withStore (closure : Mutation D)
  /-- The blocking thread runs the closure. -/
  | runClosure
  | finish
  /-- The command returns an error before it writes. -/
  | fail
  /-- The future is dropped where it awaits. -/
  | dropFuture

/-- One step of a command or of a replacement. -/
inductive Event (D : Type*) where
  | begin (kind : CommandKind)
  | command (i : ℕ) (e : CommandEvent D)
  | beginReplacement
  | replace (data : D)
  | endReplacement

variable {D : Type*}

namespace State

/-- A vault that was just opened. -/
def init (data : D) : State D :=
  { epoch := 0, gate := none, commands := [], data := data, clock := ⟨0, 0⟩, writes := [],
    imported := data, importedAt := 0, later := [] }

/-- The command `c` at `i` goes on to `phase`, and the gate to `gate`. -/
def put (s : State D) (i : ℕ) (c : Command D) (phase : Phase D) (gate : Option GateHolder) :
    State D :=
  { s with commands := s.commands.set i { c with phase := phase }, gate := gate }

/-- The closure of the command `c` at `i` runs under the vault's mutex. -/
def apply (s : State D) (i : ℕ) (c : Command D) (closure : Mutation D) : State D :=
  match closure s.data with
  | none => s
  | some data =>
    let w : Write D := { command := i, mutation := closure, begun := c.begun, applied := s.clock }
    { s with data := data, writes := s.writes ++ [w], later := s.later ++ [w] }

/-- The effect of a step of the command `c` at `i`. -/
def commandStep (s : State D) (i : ℕ) (c : Command D) : CommandEvent D → Option (State D)
  | .lock =>
    match c.phase, s.gate with
    | .waiting, none =>
      if c.ticket = s.epoch ∧ s.epoch % 2 = 0 then
        some (s.put i c .locked (some (.mutation i)))
      else some (s.put i c .done none)
    | _, _ => none
  | .unlock =>
    match c.phase with
    | .locked => some (s.put i c .unlocked none)
    | _ => none
  | .relock =>
    match c.phase with
    | .unlocked => some (s.put i c .waiting s.gate)
    | _ => none
  | .spawnBlocking closure =>
    match c.kind, c.phase with
    | .rest, .locked => some (s.put i c (.spawned closure) s.gate)
    | _, _ => none
  | .withStore closure =>
    match c.kind, c.phase with
    | .desktop, .locked => some ((s.apply i c closure).put i c .done none)
    | _, _ => none
  | .runClosure =>
    match c.phase with
    | .spawned closure => some ((s.apply i c closure).put i c .applied s.gate)
    | .orphaned closure => some ((s.apply i c closure).put i c .done s.gate)
    | _ => none
  | .finish =>
    match c.phase with
    | .applied => some (s.put i c .done none)
    | _ => none
  | .fail =>
    match c.phase with
    | .locked => some (s.put i c .done none)
    | _ => none
  | .dropFuture =>
    match c.phase with
    | .waiting | .unlocked => some (s.put i c .done s.gate)
    | .locked | .applied => some (s.put i c .done none)
    | .spawned closure => some (s.put i c (.orphaned closure) none)
    | _ => none

/-- The effect of a step. -/
def step (s : State D) : Event D → Option (State D)
  | .begin kind =>
    let c : Command D := { kind := kind, ticket := s.epoch, begun := s.clock, phase := .waiting }
    some { s with commands := s.commands ++ [c] }
  | .command i e =>
    match s.commands[i]? with
    | some c => s.commandStep i c e
    | none => none
  | .beginReplacement =>
    match s.gate with
    | none =>
      some { s with
        gate := some .replacement
        epoch := Coordinator.State.fetchAdd s.epoch
        clock := { s.clock with started := s.clock.started + 1 } }
    | some _ => none
  | .replace data =>
    match s.gate with
    | some .replacement =>
      some { s with
        data := data, imported := data, importedAt := s.clock.started, later := [] }
    | _ => none
  | .endReplacement =>
    match s.gate with
    | some .replacement =>
      some { s with
        gate := none
        epoch := Coordinator.State.fetchAdd s.epoch
        clock := { s.clock with finished := s.clock.finished + 1 } }
    | _ => none

end State

/-- The coordinator at work on a vault with the configuration `data`. -/
def machine (data : D) : Machine (State D) (Event D) where
  init := .init data
  step := State.step

/-! ### What the coordinator keeps -/

/-- The changes `ws` made to `data`, one after the other. -/
def replay (ws : List (Write D)) (data : D) : D :=
  ws.foldl (fun data w => (w.mutation data).getD data) data

theorem replay_concat (ws : List (Write D)) (w : Write D) (data : D) :
    replay (ws ++ [w]) data = (w.mutation (replay ws data)).getD (replay ws data) := by
  rw [replay, List.foldl_append]
  rfl

namespace State

/-- Nothing was replaced since the command began, and nothing is being replaced. -/
def Stable (s : State D) (c : Command D) : Prop :=
  c.begun = s.clock ∧ s.clock.started = s.clock.finished

/-- What holds of the command `c` at `i`. -/
structure CommandInv (s : State D) (i : ℕ) (c : Command D) : Prop where
  ticket_eq : c.ticket = c.begun.count % Coordinator.u64Size
  started_le : c.begun.started ≤ s.clock.started
  finished_le : c.begun.finished ≤ s.clock.finished
  /-- Only the owner of the gate has a guard. -/
  owner : c.phase.holds = true → s.gate = some (.mutation i)
  /-- A command whose closure is still to run has seen all replacements, and none is
  under way. -/
  current : c.phase.holds = true ∨ c.phase.isOrphaned = true → s.Stable c

/-- What holds of the coordinator. -/
structure Inv (s : State D) : Prop where
  command : ∀ i c, s.commands[i]? = some c → s.CommandInv i c
  epoch_eq : s.epoch = s.clock.count % Coordinator.u64Size
  /-- The number of replacements under way is 1 while one owns the gate. -/
  started_eq : s.clock.started =
    s.clock.finished + if s.gate = some .replacement then 1 else 0
  /-- Each write was made in the epoch of its command, a stable one. -/
  fresh : ∀ w ∈ s.writes, w.begun = w.applied ∧ w.applied.started = w.applied.finished
  importedAt_le : s.importedAt ≤ s.clock.started
  /-- The commands that changed the imported configuration began after its
  replacement had ended. -/
  later_begun : ∀ w ∈ s.later, s.importedAt ≤ w.begun.finished ∧
    w.begun.finished ≤ s.clock.finished
  data_eq : s.data = replay s.later s.imported

@[simp] theorem apply_commands (s : State D) (i : ℕ) (c : Command D) (f : Mutation D) :
    (s.apply i c f).commands = s.commands := by
  unfold apply
  cases f s.data <;> rfl

@[simp] theorem apply_gate (s : State D) (i : ℕ) (c : Command D) (f : Mutation D) :
    (s.apply i c f).gate = s.gate := by
  unfold apply
  cases f s.data <;> rfl

/-- A vault that was just opened satisfies the invariant. -/
theorem inv_init (data : D) : (init data).Inv where
  command := fun i c hc => by simp [init] at hc
  epoch_eq := rfl
  started_eq := rfl
  fresh := fun _ hw => (List.not_mem_nil hw).elim
  importedAt_le := Nat.le_refl _
  later_begun := fun _ hw => (List.not_mem_nil hw).elim
  data_eq := rfl

/-- The epoch has been advanced less than `u64Size` times since the command began. -/
def Near (s : State D) (c : Command D) : Prop :=
  s.clock.count < c.begun.count + Coordinator.u64Size

variable {s s' : State D} {c : Command D}

/-- **A command whose ticket is the present epoch began with the present clock**, if no
replacement is under way and the epoch has not come round to the ticket. -/
theorem Inv.stable (h : s.Inv) {i : ℕ}
    (hc : s.CommandInv i c) (hnear : s.Near c) (hticket : c.ticket = s.epoch)
    (heven : s.epoch % 2 = 0) : s.Stable c := by
  have hstarted := h.started_eq
  have hsame : s.clock.count % Coordinator.u64Size = c.begun.count % Coordinator.u64Size := by
    rw [← h.epoch_eq, ← hticket, hc.ticket_eq]
  have hcount : s.clock.count % 2 = 0 := by
    have hdvd : 2 ∣ Coordinator.u64Size := Nat.pow_dvd_pow 2 (by decide : 1 ≤ 64)
    rw [← Nat.mod_mod_of_dvd _ hdvd, ← h.epoch_eq, heven]
  have hle : c.begun.count ≤ s.clock.count := Nat.add_le_add hc.started_le hc.finished_le
  have hcounts : c.begun.count = s.clock.count := by
    have hdiff := Nat.sub_mod_eq_zero_of_mod_eq hsame
    rw [Nat.mod_eq_of_lt (Nat.sub_lt_left_of_lt_add hle hnear)] at hdiff
    omega
  have hle := hc.started_le
  have hle' := hc.finished_le
  unfold Clock.count at hcount hcounts
  refine ⟨Clock.ext ?_ ?_, ?_⟩
  · omega
  · omega
  · split_ifs at hstarted <;> omega

/-- The invariant of a command only depends on the clock and the gate. -/
theorem CommandInv.congr {i : ℕ} (h : s.CommandInv i c) (hclock : s'.clock = s.clock)
    (hgate : s.gate = some (.mutation i) → s'.gate = some (.mutation i)) :
    s'.CommandInv i c where
  ticket_eq := h.ticket_eq
  started_le := by rw [hclock]; exact h.started_le
  finished_le := by rw [hclock]; exact h.finished_le
  owner := fun hholds => hgate (h.owner hholds)
  current := fun hp => by rw [Stable, hclock]; exact h.current hp

/-- **A closure of the present epoch writes within its epoch.** -/
theorem Inv.apply (h : s.Inv) {i : ℕ} (f : Mutation D)
    (hcurrent : s.Stable c) : (s.apply i c f).Inv := by
  obtain ⟨hbegun, heq⟩ := hcurrent
  unfold State.apply
  cases hf : f s.data with
  | none => exact h
  | some data =>
    dsimp only
    refine { h with
      command := fun j d hd => (h.command j d hd).congr rfl id
      fresh := fun w hw => ?_, later_begun := fun w hw => ?_, data_eq := ?_ }
    · rcases List.mem_append.mp hw with hw | hw
      · exact h.fresh w hw
      · obtain rfl := List.mem_singleton.mp hw
        exact ⟨hbegun, heq⟩
    · rcases List.mem_append.mp hw with hw | hw
      · exact h.later_begun w hw
      · obtain rfl := List.mem_singleton.mp hw
        have hle := h.importedAt_le
        simp only [hbegun]
        omega
    · rw [replay_concat, ← h.data_eq]
      simp [hf]

/-- **A command goes on.**  The invariant is kept when the command at `i` changes
its phase and the gate passes between nobody and that command. -/
theorem Inv.put (h : s.Inv) {i : ℕ} {phase : Phase D}
    {gate : Option GateHolder} (hc : s.commands[i]? = some c)
    (hreplacement : gate = some .replacement ↔ s.gate = some .replacement)
    (hothers : ∀ j, j ≠ i → s.gate = some (.mutation j) → gate = some (.mutation j))
    (howner : phase.holds = true → gate = some (.mutation i))
    (hcurrent : phase.holds = true ∨ phase.isOrphaned = true → s.Stable c) :
    (s.put i c phase gate).Inv := by
  refine { h with command := fun j d hd => ?_, started_eq := ?_ }
  · rcases Pool.getElem?_set hd with ⟨rfl, rfl⟩ | ⟨hne, hold⟩
    · have hinv := h.command j c hc
      exact ⟨hinv.ticket_eq, hinv.started_le, hinv.finished_le, howner, hcurrent⟩
    · exact (h.command j d hold).congr rfl (hothers j hne)
  · have hstarted := h.started_eq
    simp only [State.put]
    rw [hstarted]
    exact congrArg _ (if_congr hreplacement.symm rfl rfl)

/-- The owner of the gate can go on to a phase without guard. -/
theorem Inv.put_release (h : s.Inv) {i : ℕ} {phase : Phase D}
    (hc : s.commands[i]? = some c) (hholds : c.phase.holds = true) (hphase : phase.holds = false) :
    (s.put i c phase none).Inv := by
  have hgate := (h.command i c hc).owner hholds
  refine h.put hc ?_ (fun j hne hj => ?_) (fun hp => ?_) (fun hp => ?_)
  · simp [hgate]
  · rw [hgate] at hj
    cases hj
    exact (hne rfl).elim
  · rw [hphase] at hp
    cases hp
  · exact (h.command i c hc).current (.inl hholds)

theorem Inv.put_keep (h : s.Inv) {i : ℕ} {phase : Phase D}
    (hc : s.commands[i]? = some c) (howner : phase.holds = true → c.phase.holds = true)
    (hcurrent : phase.isOrphaned = true → c.phase.holds = true) :
    (s.put i c phase s.gate).Inv := by
  have hinv := h.command i c hc
  refine h.put hc .rfl (fun _ _ hj => hj) (fun hp => hinv.owner (howner hp)) (fun hp => ?_)
  rcases hp with hp | hp
  · exact hinv.current (.inl (howner hp))
  · exact hinv.current (.inl (hcurrent hp))

/-- No replacement takes the gate while the closure of a dropped request is unfinished,
and no command gets it when the epoch has come round to its ticket. -/
def Orderly (s : State D) : Event D → Prop
  | .beginReplacement => ∀ c ∈ s.commands, c.phase.isOrphaned = false
  | .command i .lock => ∀ c ∈ s.commands[i]?, c.ticket = s.epoch → s.Near c
  | _ => True

instance (s : State D) (c : Command D) : Decidable (s.Near c) :=
  Nat.decLt _ _

instance (s : State D) (e : Event D) : Decidable (s.Orderly e) := by
  rcases e with _ | ⟨_, _ | _⟩ <;> simp only [Orderly] <;> infer_instance

/-- **A step of a command keeps the invariant**, whatever the command. -/
theorem Inv.commandStep (h : s.Inv) {i : ℕ}
    {e : CommandEvent D} (hok : s.Orderly (.command i e)) (hc : s.commands[i]? = some c)
    (hstep : s.commandStep i c e = some s') :
    s'.Inv := by
  have hinv := h.command i c hc
  cases e with
  | lock =>
    simp only [State.commandStep] at hstep
    split at hstep
    · next hphase hgate =>
      split_ifs at hstep with hticket <;> obtain rfl := Option.some.inj hstep
      · have hstable := h.stable hinv (hok c hc hticket.1) hticket.1 hticket.2
        refine h.put hc ?_ (fun j _ hj => ?_) (fun _ => rfl) (fun _ => hstable)
        · simp [hgate]
        · rw [hgate] at hj
          cases hj
      · rw [← hgate]
        exact h.put_keep hc (fun hp => by cases hp) (fun hp => by cases hp)
    · cases hstep
  | unlock | finish | fail =>
    simp only [State.commandStep] at hstep
    split at hstep
    · next hphase =>
      obtain rfl := Option.some.inj hstep
      exact h.put_release hc (by rw [hphase]; rfl) rfl
    · cases hstep
  | relock =>
    simp only [State.commandStep] at hstep
    split at hstep
    · obtain rfl := Option.some.inj hstep
      exact h.put_keep hc (fun hp => by cases hp) (fun hp => by cases hp)
    · cases hstep
  | spawnBlocking closure =>
    simp only [State.commandStep] at hstep
    split at hstep
    · next _ hphase =>
      obtain rfl := Option.some.inj hstep
      exact h.put_keep hc (fun _ => by rw [hphase]; rfl) (fun hp => by cases hp)
    · cases hstep
  | withStore closure =>
    simp only [State.commandStep] at hstep
    split at hstep
    · next _ hphase =>
      obtain rfl := Option.some.inj hstep
      have hholds : c.phase.holds = true := by rw [hphase]; rfl
      exact (h.apply closure (hinv.current (.inl hholds))).put_release
        (by rw [apply_commands]; exact hc) hholds rfl
    · cases hstep
  | runClosure =>
    simp only [State.commandStep] at hstep
    split at hstep
    · next closure hphase =>
      obtain rfl := Option.some.inj hstep
      have hholds : c.phase.holds = true := by rw [hphase]; rfl
      rw [← apply_gate s i c closure]
      exact (h.apply closure (hinv.current (.inl hholds))).put_keep
        (by rw [apply_commands]; exact hc) (fun _ => hholds) (fun hp => by cases hp)
    · next closure hphase =>
      obtain rfl := Option.some.inj hstep
      have horphan : c.phase.isOrphaned = true := by rw [hphase]; rfl
      rw [← apply_gate s i c closure]
      exact (h.apply closure (hinv.current (.inr horphan))).put_keep
        (by rw [apply_commands]; exact hc) (fun hp => by cases hp) (fun hp => by cases hp)
    · cases hstep
  | dropFuture =>
    simp only [State.commandStep] at hstep
    split at hstep
    · obtain rfl := Option.some.inj hstep
      exact h.put_keep hc (fun hp => by cases hp) (fun hp => by cases hp)
    · obtain rfl := Option.some.inj hstep
      exact h.put_keep hc (fun hp => by cases hp) (fun hp => by cases hp)
    · next hphase =>
      obtain rfl := Option.some.inj hstep
      exact h.put_release hc (by rw [hphase]; rfl) rfl
    · next hphase =>
      obtain rfl := Option.some.inj hstep
      exact h.put_release hc (by rw [hphase]; rfl) rfl
    · next closure hphase =>
      obtain rfl := Option.some.inj hstep
      exact h.put_release hc (by rw [hphase]; rfl) rfl
    · cases hstep

/-- Between replacements no command owns the gate and, without orphans, none
belongs to the epoch that ends. -/
theorem CommandInv.of_idle {i : ℕ} (h : s.CommandInv i c)
    (hholds : c.phase.holds = false) (horphan : c.phase.isOrphaned = false)
    (hstarted : s.clock.started ≤ s'.clock.started)
    (hfinished : s.clock.finished ≤ s'.clock.finished) : s'.CommandInv i c where
  ticket_eq := h.ticket_eq
  started_le := Nat.le_trans h.started_le hstarted
  finished_le := Nat.le_trans h.finished_le hfinished
  owner := fun hp => by rw [hholds] at hp; cases hp
  current := fun hp => by rw [hholds, horphan] at hp; simp at hp

/-- The epoch goes on with the count. -/
theorem epoch_advanced {epoch : ℕ} {clock clock' : Clock}
    (h : epoch = clock.count % Coordinator.u64Size) (hcount : clock'.count = clock.count + 1) :
    Coordinator.State.fetchAdd epoch = clock'.count % Coordinator.u64Size := by
  rw [hcount, h, Coordinator.State.fetchAdd, Nat.mod_add_mod]

/-- **One step keeps the invariant**, unless a replacement passes an orphan or the epoch
has come round to a ticket. -/
theorem Inv.step {e : Event D} (h : s.Inv) (hok : s.Orderly e)
    (hstep : s.step e = some s') : s'.Inv := by
  cases e with
  | begin kind =>
    obtain rfl := Option.some.inj hstep
    refine { h with command := fun j d hd => ?_ }
    rcases Pool.getElem?_add hd with ⟨-, rfl⟩ | hold
    · exact
        { ticket_eq := h.epoch_eq
          started_le := Nat.le_refl _
          finished_le := Nat.le_refl _
          owner := fun hp => by cases hp
          current := fun hp => by rcases hp with hp | hp <;> cases hp }
    · exact (h.command j d hold).congr rfl id
  | command i e =>
    simp only [State.step] at hstep
    split at hstep
    · next c hc => exact h.commandStep hok hc hstep
    · cases hstep
  | beginReplacement =>
    simp only [State.step] at hstep
    split at hstep
    · next hgate =>
      obtain rfl := Option.some.inj hstep
      have hstarted := h.started_eq
      have hepoch := h.epoch_eq
      have himported := h.importedAt_le
      simp only [hgate, reduceCtorEq, if_false] at hstarted
      refine { h with
        command := fun j d hd => ?_, epoch_eq := ?_, started_eq := ?_, importedAt_le := ?_ }
      · have hinv := h.command j d hd
        have hholds : d.phase.holds = false := by
          by_contra hp
          have := hinv.owner (by simpa using hp)
          rw [hgate] at this
          cases this
        exact hinv.of_idle hholds (hok d (List.mem_of_getElem? hd)) (Nat.le_succ _) (Nat.le_refl _)
      · exact epoch_advanced hepoch (Nat.add_right_comm _ _ _).symm
      · simp only [if_true]
        omega
      · simp only
        omega
    · cases hstep
  | replace data =>
    simp only [State.step] at hstep
    split at hstep
    · next hgate =>
      obtain rfl := Option.some.inj hstep
      exact { h with
        command := fun j d hd => (h.command j d hd).congr rfl id
        importedAt_le := Nat.le_refl _
        later_begun := fun _ hw => (List.not_mem_nil hw).elim
        data_eq := rfl }
    · cases hstep
  | endReplacement =>
    simp only [State.step] at hstep
    split at hstep
    · next hgate =>
      obtain rfl := Option.some.inj hstep
      have hstarted := h.started_eq
      have hepoch := h.epoch_eq
      simp only [hgate, if_true] at hstarted
      refine { h with
        command := fun j d hd => ?_, epoch_eq := ?_, started_eq := ?_
        later_begun := fun w hw => ?_ }
      · have hinv := h.command j d hd
        have hodd : ¬ (d.phase.holds = true ∨ d.phase.isOrphaned = true) := fun hp => by
          have heq := (hinv.current hp).2
          omega
        rw [not_or] at hodd
        exact hinv.of_idle (by simpa using hodd.1) (by simpa using hodd.2) (Nat.le_refl _)
          (Nat.le_succ _)
      · exact epoch_advanced hepoch rfl
      · simp only [reduceCtorEq, if_false]
        omega
      · obtain ⟨hge, hle⟩ := h.later_begun w hw
        exact ⟨hge, Nat.le_succ_of_le hle⟩
    · cases hstep

/-- No mutation has crossed a replacement. -/
structure NoCrossing (s : State D) : Prop where
  /-- Since a command that wrote took its ticket, no replacement began, ran or
  ended before its write. -/
  fresh : ∀ w ∈ s.writes, w.begun = w.applied ∧ w.applied.started = w.applied.finished
  /-- The data are the imported data with the later changes. -/
  data_eq : s.data = replay s.later s.imported
  /-- The later changes come from commands that began after the replacement. -/
  later_begun : ∀ w ∈ s.later, s.importedAt ≤ w.begun.finished
  /-- While the replacement owns the gate, the data are exactly the imported data. -/
  intact : s.gate = some .replacement → s.importedAt = s.clock.started → s.data = s.imported

theorem Inv.noCrossing (h : s.Inv) : s.NoCrossing where
  fresh := h.fresh
  data_eq := h.data_eq
  later_begun := fun w hw => (h.later_begun w hw).1
  intact := fun hgate hrunning => by
    have hstarted := h.started_eq
    simp only [hgate, if_true] at hstarted
    have hnone : s.later = [] := by
      rw [List.eq_nil_iff_forall_not_mem]
      intro w hw
      obtain ⟨hge, hle⟩ := h.later_begun w hw
      omega
    rw [h.data_eq, hnone]
    rfl

end State

/-- **No configuration mutation crosses a replacement**, in every run in which no
replacement takes the gate while the closure of a dropped request is unfinished and no
command gets it when the epoch has come round to its ticket. -/
theorem no_mutation_crosses {data : D} {trace : List (Event D)} {s : State D}
    (hok : (machine data).Meets State.Orderly trace) (h : (machine data).run trace = some s) :
    s.NoCrossing := by
  have hinv : s.Inv := by
    refine Machine.run_invariant_of (State.inv_init data) ?_ hok h
    intro t e t' hI he hstep
    exact State.Inv.step hI he hstep
  exact hinv.noCrossing

/-- A REST write, an import of 10, and a write after it. -/
def orderlyTrace : List (Event ℕ) :=
  [.begin .rest, .command 0 .lock, .command 0 (.spawnBlocking fun n => some (n + 1)),
    .command 0 .runClosure, .command 0 .finish, .beginReplacement, .replace 10, .endReplacement,
    .begin .desktop, .command 1 .lock, .command 1 (.withStore fun n => some (n + 2))]

/-- The law at that run: the later change is the one made after the import. -/
theorem no_mutation_crosses_orderly :
    ∃ s, (machine 0).run orderlyTrace = some s ∧ s.data = 12 ∧ s.NoCrossing := by
  have hok : (machine 0).Meets State.Orderly orderlyTrace := by decide
  exact ⟨_, rfl, rfl, no_mutation_crosses hok rfl⟩

/-- A REST write whose request is dropped while its closure is queued; the closure
outlives an import. -/
def orphanTrace : List (Event ℕ) :=
  [.begin .rest, .command 0 .lock, .command 0 (.spawnBlocking fun n => some (n + 1)),
    .command 0 .dropFuture, .beginReplacement, .replace 10, .endReplacement,
    .command 0 .runClosure]

/-- **A closure left behind by a dropped request crosses a replacement.**  It was
prepared before the import and changes the imported configuration. -/
theorem orphaned_write_crosses :
    ∃ s, (machine 0).run orphanTrace = some s ∧ s.imported = 10 ∧ s.data = 11 ∧
      ¬ s.NoCrossing := by
  refine ⟨_, rfl, rfl, rfl, fun h => ?_⟩
  have hfresh := (h.fresh _ List.mem_cons_self).1
  cases hfresh

end ConfigMutation
end HelmSsh
