/-
# The coordinator, step by step

`ConfigMutationCoordinator` (`src-tauri/src/config_mutation.rs`): a task takes a ticket, which is
the epoch, and asks for the gate, a fair mutex; when the gate is granted, `lock` loads the epoch
again and compares.  `begin_replacement` asks for the gate as well and then advances the epoch; the
end of the replacement advances it once more and gives the gate back.  A task may be dropped
wherever it awaits.  The epoch is an `AtomicU64`.

* `Linked` — the holder of the gate and its queue are the tasks that say so, and there is one
  holder (`Linked.unique`);
* `Counted` — the epoch counts the beginnings and the ends of replacements, of which one at most is
  in progress;
* `Inv.step` — every step keeps both.
-/

import Mathlib.Algebra.GroupWithZero.Nat
import HelmSsh.FairLock
import HelmSsh.Machine
import HelmSsh.Pool

namespace HelmSsh
namespace ConfigMutation
namespace Coordinator

/-! ### The coordinator -/

/-- What a task is for: a mutation with its ticket, or a replacement. -/
inductive TaskKind where
  | mutation (ticket : ℕ)
  | replacement
  deriving DecidableEq

/-- How far a task has come. -/
inductive Phase where
  /-- The ticket is taken. -/
  | ticketed
  /-- Awaiting the gate. -/
  | waiting
  /-- The gate is granted; the epoch is not looked at yet. -/
  | granted
  /-- Owning the guard. -/
  | guarded
  /-- The replacement guard has advanced the epoch, and is to give the gate back. -/
  | leaving
  /-- `stale_config_error`. -/
  | refused
  | done
  deriving DecidableEq

/-- The task has the gate. -/
def Phase.holds : Phase → Bool
  | .granted | .guarded | .leaving => true
  | _ => false

/-- A task, with the replacements that had begun when it was created and whether one was in
progress. -/
structure Task where
  kind : TaskKind
  phase : Phase
  begunAt : ℕ
  replacingAt : Bool
  deriving DecidableEq

/-- The number of values of a `u64`. -/
def u64Size : ℕ := 2 ^ 64

/-- The coordinator and its tasks, with the replacements that have begun and ended. -/
structure State where
  epoch : ℕ
  gate : FairLock ℕ
  tasks : List Task
  begun : ℕ
  ended : ℕ

namespace State

/-- `ConfigMutationCoordinator::default`. -/
def init : State :=
  { epoch := 0, gate := .free, tasks := [], begun := 0, ended := 0 }

/-- A replacement is in progress. -/
def replacing (s : State) : Bool :=
  s.ended < s.begun

/-- `fetch_add(1)`. -/
def fetchAdd (epoch : ℕ) : ℕ :=
  (epoch + 1) % u64Size

/-- The task at `i` goes on to a phase. -/
def put (s : State) (i : ℕ) (t : Task) (phase : Phase) : State :=
  { s with tasks := s.tasks.set i { t with phase := phase } }

/-- A new task. -/
def add (s : State) (kind : TaskKind) (phase : Phase) : State :=
  { s with
    tasks := s.tasks ++
      [{ kind := kind, phase := phase, begunAt := s.begun, replacingAt := s.replacing }] }

/-- The gate is given back. -/
def release (s : State) (i : ℕ) : State :=
  { s with gate := s.gate.release i }

/-- The check of `lock` succeeds. -/
def accepts (s : State) (ticket : ℕ) : Bool :=
  s.epoch = ticket && s.epoch % 2 = 0

end State

/-- A step of a task. -/
inductive TaskEvent where
  /-- `lock(ticket)` asks for the gate. -/
  | lock
  /-- `lock` loads the epoch, and returns its guard or gives the gate back. -/
  | check
  /-- `begin_replacement` advances the epoch. -/
  | enter
  /-- The guard of a replacement is dropped: the epoch advances. -/
  | leave
  /-- The gate is given back. -/
  | release
  /-- The task is dropped where it awaits. -/
  | drop
  deriving DecidableEq

/-- What can happen. -/
inductive Event where
  | ticket
  | beginReplacement
  /-- The first of those that wait is granted the gate. -/
  | grant
  | task (i : ℕ) (e : TaskEvent)
  deriving DecidableEq

namespace State

/-- The effect of a step of the task `t` at `i`. -/
def taskStep (s : State) (i : ℕ) (t : Task) : TaskEvent → Option State
  | .lock =>
    match t.kind, t.phase with
    | .mutation _, .ticketed =>
      some { s.put i t .waiting with gate := s.gate.request i .exclusive }
    | _, _ => none
  | .check =>
    match t.kind, t.phase with
    | .mutation ticket, .granted =>
      if s.accepts ticket then some (s.put i t .guarded)
      else some ((s.put i t .refused).release i)
    | _, _ => none
  | .enter =>
    match t.kind, t.phase with
    | .replacement, .granted =>
      some { s.put i t .guarded with epoch := fetchAdd s.epoch, begun := s.begun + 1 }
    | _, _ => none
  | .leave =>
    match t.kind, t.phase with
    | .replacement, .guarded =>
      some { s.put i t .leaving with epoch := fetchAdd s.epoch, ended := s.ended + 1 }
    | _, _ => none
  | .release =>
    match t.kind, t.phase with
    | .mutation _, .guarded | _, .leaving => some ((s.put i t .done).release i)
    | _, _ => none
  | .drop =>
    match t.phase with
    | .ticketed => some (s.put i t .done)
    | .waiting => some { s.put i t .done with gate := s.gate.cancel i }
    | .granted => some ((s.put i t .done).release i)
    | _ => none

/-- The effect of a step. -/
def step (s : State) : Event → Option State
  | .ticket => some (s.add (.mutation s.epoch) .ticketed)
  | .beginReplacement =>
    some { s.add .replacement .waiting with
      gate := s.gate.request s.tasks.length .exclusive }
  | .grant =>
    match s.gate.grant, s.gate.waiters with
    | some gate, w :: _ =>
      s.tasks[w.1]?.map fun t => { s.put w.1 t .granted with gate := gate }
    | _, _ => none
  | .task i e => s.tasks[i]?.bind fun t => s.taskStep i t e

end State

/-- The coordinator at work. -/
def coordinator : Machine State Event where
  init := .init
  step := State.step

/-! ### Who has the gate -/

namespace State

variable {s s' : State} {i j : ℕ} {t u : Task} {gate : FairLock ℕ} {phase : Phase}

/-- The holders and the waiters of the gate are the tasks that have it and those that await it. -/
structure Linked (s : State) : Prop where
  holds : ∀ (i : ℕ) (t : Task), s.tasks[i]? = some t → t.phase.holds = true →
    (i, .exclusive) ∈ s.gate.holders
  waits : ∀ (i : ℕ) (t : Task), s.tasks[i]? = some t → t.phase = .waiting →
    (i, .exclusive) ∈ s.gate.waiters
  holders : ∀ h ∈ s.gate.holders, h.2 = .exclusive ∧
    ∃ t : Task, s.tasks[h.1]? = some t ∧ t.phase.holds = true
  waiters : ∀ w ∈ s.gate.waiters, w.2 = .exclusive ∧
    ∃ t : Task, s.tasks[w.1]? = some t ∧ t.phase = .waiting
  nodup : (s.gate.waiters.map Prod.fst).Nodup

/-- **One task has the gate.** -/
theorem Linked.unique (h : s.Linked) (ht : s.tasks[i]? = some t) (hu : s.tasks[j]? = some u)
    (hholds : t.phase.holds = true) (hholds' : u.phase.holds = true) : j = i :=
  FairLock.owner_unique (h.holds i t ht hholds) (h.holds j u hu hholds')

/-- What the gate must become when the task at `i` goes on to `phase`. -/
structure Fits (s : State) (i : ℕ) (phase : Phase) (gate : FairLock ℕ) : Prop where
  holders : ∀ h, h ∈ gate.holders ↔
    h = (i, .exclusive) ∧ phase.holds = true ∨ h ∈ s.gate.holders ∧ h.1 ≠ i
  waiters : ∀ w, w ∈ gate.waiters ↔
    w = (i, .exclusive) ∧ phase = .waiting ∨ w ∈ s.gate.waiters ∧ w.1 ≠ i
  nodup : (gate.waiters.map Prod.fst).Nodup

/-- **The gate stays linked** when a task goes on and the gate fits. -/
theorem Linked.put (h : s.Linked) (ht : s.tasks[i]? = some t) (hfits : s.Fits i phase gate)
    (htasks : s'.tasks = s.tasks.set i { t with phase := phase }) (hgate : s'.gate = gate) :
    s'.Linked := by
  have hself : s'.tasks[i]? = some { t with phase := phase } := by
    rw [htasks]
    exact Pool.getElem?_set_self ht
  have hother : ∀ j, j ≠ i → s'.tasks[j]? = s.tasks[j]? := by
    intro j hne
    rw [htasks, List.getElem?_set_ne (Ne.symm hne)]
  subst hgate
  refine ⟨fun j u hu hholds => ?_, fun j u hu hwaits => ?_, fun w hw => ?_, fun w hw => ?_,
    hfits.nodup⟩
  · rw [hfits.holders]
    by_cases hji : j = i
    · subst hji
      obtain rfl := Option.some.inj (hself.symm.trans hu)
      exact .inl ⟨rfl, hholds⟩
    · rw [hother j hji] at hu
      exact .inr ⟨h.holds j u hu hholds, hji⟩
  · rw [hfits.waiters]
    by_cases hji : j = i
    · subst hji
      obtain rfl := Option.some.inj (hself.symm.trans hu)
      exact .inl ⟨rfl, hwaits⟩
    · rw [hother j hji] at hu
      exact .inr ⟨h.waits j u hu hwaits, hji⟩
  · rcases (hfits.holders w).mp hw with ⟨rfl, hholds⟩ | ⟨hold, hne⟩
    · exact ⟨rfl, _, hself, hholds⟩
    · rw [hother w.1 hne]
      exact h.holders w hold
  · rcases (hfits.waiters w).mp hw with ⟨rfl, hwaits⟩ | ⟨hold, hne⟩
    · exact ⟨rfl, _, hself, hwaits⟩
    · rw [hother w.1 hne]
      exact h.waiters w hold

theorem Linked.mem_holders (h : s.Linked) (ht : s.tasks[i]? = some t) {m : LockMode}
    (hmem : (i, m) ∈ s.gate.holders) : t.phase.holds = true := by
  obtain ⟨_, u, hu, hholds⟩ := h.holders _ hmem
  obtain rfl := Option.some.inj (ht.symm.trans hu)
  exact hholds

theorem Linked.mem_waiters (h : s.Linked) (ht : s.tasks[i]? = some t) {m : LockMode}
    (hmem : (i, m) ∈ s.gate.waiters) : t.phase = .waiting := by
  obtain ⟨_, u, hu, hwaits⟩ := h.waiters _ hmem
  obtain rfl := Option.some.inj (ht.symm.trans hu)
  exact hwaits

theorem Linked.holders_ne (h : s.Linked) (ht : s.tasks[i]? = some t)
    (hholds : t.phase.holds = false) {w : ℕ × LockMode} (hmem : w ∈ s.gate.holders) :
    w.1 ≠ i := by
  rintro rfl
  exact Bool.eq_false_iff.mp hholds (h.mem_holders ht hmem)

theorem Linked.waiters_ne (h : s.Linked) (ht : s.tasks[i]? = some t) (hwaits : t.phase ≠ .waiting)
    {w : ℕ × LockMode} (hmem : w ∈ s.gate.waiters) : w.1 ≠ i := by
  rintro rfl
  exact hwaits (h.mem_waiters ht hmem)

/-- The gate as it is fits a task that keeps it, or that has nothing to do with it. -/
theorem Linked.fits_same (h : s.Linked) (ht : s.tasks[i]? = some t)
    (hholds : phase.holds = t.phase.holds) (hwaits : t.phase ≠ .waiting)
    (hwaits' : phase ≠ .waiting) : s.Fits i phase s.gate := by
  refine ⟨fun w => ?_, fun w => ?_, h.nodup⟩
  · rw [hholds]
    refine ⟨fun hmem => ?_, ?_⟩
    · by_cases hi : w.1 = i
      · subst hi
        exact .inl ⟨Prod.ext rfl (h.holders w hmem).1, h.mem_holders ht hmem⟩
      · exact .inr ⟨hmem, hi⟩
    · rintro (⟨rfl, hhas⟩ | ⟨hmem, -⟩)
      · exact h.holds i t ht hhas
      · exact hmem
  · refine ⟨fun hmem => .inr ⟨hmem, h.waiters_ne ht hwaits hmem⟩, ?_⟩
    rintro (⟨-, habsurd⟩ | ⟨hmem, -⟩)
    · exact absurd habsurd hwaits'
    · exact hmem

/-- The gate with the task in the queue fits a task that begins to wait. -/
theorem Linked.fits_request (h : s.Linked) (ht : s.tasks[i]? = some t)
    (hholds : t.phase.holds = false) (hwaits : t.phase ≠ .waiting) :
    s.Fits i .waiting (s.gate.request i .exclusive) := by
  refine ⟨fun w => ⟨fun hmem => .inr ⟨hmem, h.holders_ne ht hholds hmem⟩, ?_⟩, fun w => ?_, ?_⟩
  · rintro (⟨-, habsurd⟩ | ⟨hmem, -⟩)
    · cases habsurd
    · exact hmem
  · rw [FairLock.request, List.mem_append, List.mem_singleton]
    refine ⟨?_, ?_⟩
    · rintro (hmem | rfl)
      · exact .inr ⟨hmem, h.waiters_ne ht hwaits hmem⟩
      · exact .inl ⟨rfl, rfl⟩
    · rintro (⟨rfl, -⟩ | ⟨hmem, -⟩)
      · exact .inr rfl
      · exact .inl hmem
  · rw [FairLock.request, List.map_append, List.nodup_append]
    refine ⟨h.nodup, List.nodup_singleton _, fun a ha b hb => ?_⟩
    obtain ⟨w, hw, rfl⟩ := List.mem_map.mp ha
    obtain rfl := List.mem_singleton.mp hb
    exact h.waiters_ne ht hwaits hw

/-- The gate without the task in the queue fits one that gives up waiting. -/
theorem Linked.fits_cancel (h : s.Linked) (ht : s.tasks[i]? = some t) (hwaits : t.phase = .waiting)
    (hphase : phase.holds = false) (hphase' : phase ≠ .waiting) :
    s.Fits i phase (s.gate.cancel i) := by
  have hholds : t.phase.holds = false := by
    rw [hwaits]
    rfl
  refine ⟨fun w => ⟨fun hmem => .inr ⟨hmem, h.holders_ne ht hholds hmem⟩, ?_⟩, fun w => ?_, ?_⟩
  · rintro (⟨-, habsurd⟩ | ⟨hmem, -⟩)
    · exact absurd habsurd (Bool.eq_false_iff.mp hphase)
    · exact hmem
  · rw [FairLock.mem_waiters_cancel]
    refine ⟨.inr, ?_⟩
    rintro (⟨-, habsurd⟩ | hmem)
    · exact absurd habsurd hphase'
    · exact hmem
  · exact h.nodup.sublist (List.Sublist.map _ List.filter_sublist)

/-- The gate without its holder fits a task that gives it back. -/
theorem Linked.fits_release (h : s.Linked) (ht : s.tasks[i]? = some t)
    (hholds : t.phase.holds = true) (hphase : phase.holds = false) (hphase' : phase ≠ .waiting) :
    s.Fits i phase (s.gate.release i) := by
  have hwaits : t.phase ≠ .waiting := by
    intro heq
    rw [heq] at hholds
    cases hholds
  refine ⟨fun w => ?_, fun w => ⟨fun hmem => .inr ⟨hmem, h.waiters_ne ht hwaits hmem⟩, ?_⟩,
    h.nodup⟩
  · rw [FairLock.mem_holders_release]
    refine ⟨.inr, ?_⟩
    rintro (⟨-, habsurd⟩ | hmem)
    · exact absurd habsurd (Bool.eq_false_iff.mp hphase)
    · exact hmem
  · rintro (⟨-, habsurd⟩ | ⟨hmem, -⟩)
    · exact absurd habsurd hphase'
    · exact hmem

/-- The gate after a grant fits the task that was first in the queue. -/
theorem Linked.fits_grant (h : s.Linked) {w : ℕ × LockMode} {rest : List (ℕ × LockMode)}
    (hwaiters : s.gate.waiters = w :: rest) (ht : s.tasks[w.1]? = some t)
    (hgrant : s.gate.grant = some gate) : s.Fits w.1 .granted gate := by
  obtain ⟨w', hcons, -, hholders⟩ := FairLock.grant_eq_some hgrant
  obtain ⟨rfl, hrest⟩ := List.cons.inj (hwaiters.symm.trans hcons)
  have hmem : w ∈ s.gate.waiters := by
    rw [hwaiters]
    exact List.mem_cons_self
  have hmode : w = (w.1, .exclusive) := Prod.ext rfl (h.waiters w hmem).1
  have hwaits : t.phase = .waiting := h.mem_waiters (m := w.2) ht hmem
  have hnot : t.phase.holds = false := by
    rw [hwaits]
    rfl
  have hnodup := h.nodup
  rw [hcons, List.map_cons, List.nodup_cons] at hnodup
  refine ⟨fun v => ?_, fun v => ?_, hnodup.2⟩
  · rw [hholders, List.mem_cons, hmode]
    refine ⟨?_, ?_⟩
    · rintro (rfl | hold)
      · exact .inl ⟨rfl, rfl⟩
      · exact .inr ⟨hold, h.holders_ne ht hnot hold⟩
    · rintro (⟨rfl, -⟩ | ⟨hold, -⟩)
      · exact .inl rfl
      · exact .inr hold
  · rw [hcons, List.mem_cons]
    refine ⟨fun hv => .inr ⟨.inr hv, fun heq => hnodup.1 ?_⟩, ?_⟩
    · rw [← heq]
      exact List.mem_map.mpr ⟨v, hv, rfl⟩
    · rintro (⟨-, habsurd⟩ | ⟨rfl | hv, hne⟩)
      · cases habsurd
      · exact absurd rfl hne
      · exact hv

theorem Linked.add (h : s.Linked) (kind : TaskKind) : (s.add kind .ticketed).Linked := by
  refine ⟨fun j u hu hholds => ?_, fun j u hu hwaits => ?_, fun w hw => ?_, fun w hw => ?_,
    h.nodup⟩
  · rcases Pool.getElem?_add hu with ⟨-, rfl⟩ | hold
    · cases hholds
    · exact h.holds j u hold hholds
  · rcases Pool.getElem?_add hu with ⟨-, rfl⟩ | hold
    · cases hwaits
    · exact h.waits j u hold hwaits
  · obtain ⟨hmode, u, hu, hholds⟩ := h.holders w hw
    exact ⟨hmode, u, Pool.getElem?_add_left hu, hholds⟩
  · obtain ⟨hmode, u, hu, hwaits⟩ := h.waiters w hw
    exact ⟨hmode, u, Pool.getElem?_add_left hu, hwaits⟩

/-! ### The epoch -/

/-- The epoch counts the beginnings and the ends of replacements, of which one at most is in
progress: the one whose guard is held. -/
structure Counted (s : State) : Prop where
  epoch : s.epoch = (s.begun + s.ended) % u64Size
  order : s.begun = s.ended ∨ s.begun = s.ended + 1 ∧ ∃ (i : ℕ) (t : Task),
    s.tasks[i]? = some t ∧ t.kind = .replacement ∧ t.phase = .guarded
  /-- A guard of a replacement is that of the one in progress. -/
  inProgress : ∀ (i : ℕ) (t : Task), s.tasks[i]? = some t → t.kind = .replacement →
    t.phase = .guarded →
    s.begun = s.ended + 1
  begun_le : ∀ (i : ℕ) (t : Task), s.tasks[i]? = some t → t.begunAt ≤ s.begun
  /-- A ticket is the epoch of its time. -/
  ticket : ∀ (i : ℕ) (t : Task) (ticket : ℕ), s.tasks[i]? = some t → t.kind = .mutation ticket →
    ticket = (2 * t.begunAt - t.replacingAt.toNat) % u64Size ∧
      (t.replacingAt = true → 0 < t.begunAt)

theorem Counted.replacing_iff (h : s.Counted) : s.replacing = true ↔ s.begun = s.ended + 1 := by
  rw [replacing, decide_eq_true_eq]
  rcases h.order with heq | ⟨heq, -⟩ <;> omega

theorem Counted.withGate (h : s.Counted) (gate : FairLock ℕ) :
    Counted { s with gate := gate } :=
  ⟨h.epoch, h.order, h.inProgress, h.begun_le, h.ticket⟩

/-- A step that leaves the epoch alone keeps the count, when the task neither gets nor loses the
guard of a replacement. -/
theorem Counted.put (h : s.Counted) (ht : s.tasks[i]? = some t)
    (hphase : t.kind = .replacement → (phase = .guarded ↔ t.phase = .guarded))
    (htasks : s'.tasks = s.tasks.set i { t with phase := phase }) (hepoch : s'.epoch = s.epoch)
    (hbegun : s'.begun = s.begun) (hended : s'.ended = s.ended) : s'.Counted := by
  have hback : ∀ (j : ℕ) (u : Task), s'.tasks[j]? = some u → ∃ v, s.tasks[j]? = some v ∧
    u.kind = v.kind ∧
      u.begunAt = v.begunAt ∧ u.replacingAt = v.replacingAt ∧
      (u.kind = .replacement → u.phase = .guarded → v.phase = .guarded) := by
    intro j u hu
    rw [htasks] at hu
    rcases Pool.getElem?_set hu with ⟨rfl, rfl⟩ | ⟨-, hold⟩
    · exact ⟨t, ht, rfl, rfl, rfl, fun hkind => (hphase hkind).mp⟩
    · exact ⟨u, hold, rfl, rfl, rfl, fun _ hguarded => hguarded⟩
  refine ⟨?_, ?_, fun j u hu hkind hguarded => ?_, fun j u hu => ?_, fun j u ticket hu hkind => ?_⟩
  · rw [hepoch, hbegun, hended, h.epoch]
  · rw [hbegun, hended, htasks]
    refine h.order.imp_right fun ⟨heq, hguard⟩ => ⟨heq, ?_⟩
    refine Pool.exists_set (P := fun u : Task => u.kind = .replacement ∧ u.phase = .guarded) ht
      hguard fun hold => ?_
    exact ⟨hold.1, (hphase hold.1).mpr hold.2⟩
  · obtain ⟨v, hv, hsame, -, -, hback⟩ := hback j u hu
    rw [hbegun, hended]
    exact h.inProgress j v hv (hsame ▸ hkind) (hback hkind hguarded)
  · obtain ⟨v, hv, -, hsame, -⟩ := hback j u hu
    rw [hbegun, hsame]
    exact h.begun_le j v hv
  · obtain ⟨v, hv, hsame, hbegunAt, hreplacingAt, -⟩ := hback j u hu
    rw [hbegunAt, hreplacingAt]
    exact h.ticket j v ticket hv (hsame ▸ hkind)

/-- A new task keeps the count, when its ticket is the epoch. -/
theorem Counted.add (h : s.Counted) {kind : TaskKind}
    (hkind : ∀ ticket, kind = .mutation ticket → ticket = s.epoch) (hphase : phase ≠ .guarded) :
    (s.add kind phase).Counted := by
  refine ⟨h.epoch, ?_, fun j u hu hreplacement hguarded => ?_, fun j u hu => ?_,
    fun j u ticket hu hticket => ?_⟩
  · refine h.order.imp_right fun ⟨heq, hguard⟩ => ⟨heq, ?_⟩
    exact Pool.exists_add (P := fun u : Task => u.kind = .replacement ∧ u.phase = .guarded) hguard
  · rcases Pool.getElem?_add hu with ⟨-, rfl⟩ | hold
    · exact absurd hguarded hphase
    · exact h.inProgress j u hold hreplacement hguarded
  · rcases Pool.getElem?_add hu with ⟨-, rfl⟩ | hold
    · exact Nat.le_refl _
    · exact h.begun_le j u hold
  · rcases Pool.getElem?_add hu with ⟨-, rfl⟩ | hold
    · dsimp only
      rw [hkind ticket hticket, h.epoch]
      cases hreplacing : s.replacing with
      | true =>
        have heq := h.replacing_iff.mp hreplacing
        refine ⟨congrArg (· % u64Size) ?_, fun _ => ?_⟩
        · rw [Bool.toNat_true]
          omega
        · omega
      | false =>
        rcases h.order with heq | ⟨heq, -⟩
        · refine ⟨congrArg (· % u64Size) ?_, nofun⟩
          rw [Bool.toNat_false]
          omega
        · rw [h.replacing_iff.mpr heq] at hreplacing
          cases hreplacing
    · exact h.ticket j u ticket hold hticket

/-- What holds of the coordinator. -/
structure Inv (s : State) : Prop where
  linked : s.Linked
  counted : s.Counted

/-- Without another holder of the gate, no replacement is in progress. -/
theorem Inv.begun_eq (h : s.Inv) (ht : s.tasks[i]? = some t) (hholds : t.phase.holds = true)
    (hnot : t.phase ≠ .guarded ∨ t.kind ≠ .replacement) : s.begun = s.ended := by
  rcases h.counted.order with heq | ⟨-, j, u, hu, hkind, hguarded⟩
  · exact heq
  · have hholds' : u.phase.holds = true := by
      rw [hguarded]
      rfl
    obtain rfl := h.linked.unique ht hu hholds hholds'
    obtain rfl := Option.some.inj (hu.symm.trans ht)
    rcases hnot with hphase | hkind'
    · exact absurd hguarded hphase
    · exact absurd hkind hkind'

theorem Counted.epoch_stable (h : s.Counted) (heq : s.begun = s.ended) :
    s.epoch = 2 * s.begun % u64Size := by
  rw [h.epoch, ← heq, Nat.two_mul]

/-- **The beginning of a replacement** keeps the count: the task that has the gate gets the guard,
and there is no other. -/
theorem Inv.enter (h : s.Inv) (ht : s.tasks[i]? = some t) (hkind : t.kind = .replacement)
    (hgranted : t.phase = .granted) :
    Counted { s.put i t .guarded with epoch := fetchAdd s.epoch, begun := s.begun + 1 } := by
  have hholds : t.phase.holds = true := by
    rw [hgranted]
    rfl
  have heq : s.begun = s.ended := by
    refine h.begun_eq ht hholds (.inl ?_)
    rw [hgranted]
    nofun
  refine ⟨?_, .inr ⟨?_, i, _, Pool.getElem?_set_self ht, hkind, rfl⟩, fun _ _ _ _ _ => ?_,
    fun j u hu => ?_, fun j u ticket hu hticket => ?_⟩
  · show fetchAdd s.epoch = (s.begun + 1 + s.ended) % u64Size
    rw [fetchAdd, h.counted.epoch, Nat.mod_add_mod]
    exact congrArg (· % u64Size) (by omega)
  · exact congrArg (· + 1) heq
  · exact congrArg (· + 1) heq
  · rcases Pool.getElem?_set hu with ⟨rfl, rfl⟩ | ⟨-, hold⟩
    · exact Nat.le_succ_of_le (h.counted.begun_le j t ht)
    · exact Nat.le_succ_of_le (h.counted.begun_le j u hold)
  · rcases Pool.getElem?_set hu with ⟨rfl, rfl⟩ | ⟨-, hold⟩
    · exact h.counted.ticket j t ticket ht hticket
    · exact h.counted.ticket j u ticket hold hticket

/-- **The end of a replacement** keeps the count: no guard of a replacement is left. -/
theorem Inv.leave (h : s.Inv) (ht : s.tasks[i]? = some t) (hkind : t.kind = .replacement)
    (hguarded : t.phase = .guarded) :
    Counted { s.put i t .leaving with epoch := fetchAdd s.epoch, ended := s.ended + 1 } := by
  have heq : s.begun = s.ended + 1 := h.counted.inProgress i t ht hkind hguarded
  have hholds : t.phase.holds = true := by
    rw [hguarded]
    rfl
  refine ⟨?_, .inl heq, fun j u hu hkind' hguarded' => ?_, fun j u hu => ?_,
    fun j u ticket hu hticket => ?_⟩
  · show fetchAdd s.epoch = (s.begun + (s.ended + 1)) % u64Size
    rw [fetchAdd, h.counted.epoch, Nat.mod_add_mod]
    exact congrArg (· % u64Size) (by omega)
  · rcases Pool.getElem?_set hu with ⟨rfl, rfl⟩ | ⟨hne, hold⟩
    · cases hguarded'
    · have hholds' : u.phase.holds = true := by
        rw [hguarded']
        rfl
      exact absurd (h.linked.unique ht hold hholds hholds') hne
  · rcases Pool.getElem?_set hu with ⟨rfl, rfl⟩ | ⟨-, hold⟩
    · exact h.counted.begun_le j t ht
    · exact h.counted.begun_le j u hold
  · rcases Pool.getElem?_set hu with ⟨rfl, rfl⟩ | ⟨-, hold⟩
    · exact h.counted.ticket j t ticket ht hticket
    · exact h.counted.ticket j u ticket hold hticket

/-! ### What holds in every state -/

theorem Inv.put (h : s.Inv) (ht : s.tasks[i]? = some t) (hfits : s.Fits i phase gate)
    (hphase : t.kind = .replacement → (phase = .guarded ↔ t.phase = .guarded)) :
    Inv { s.put i t phase with gate := gate } :=
  ⟨h.linked.put ht hfits rfl rfl, h.counted.put ht hphase rfl rfl rfl rfl⟩

theorem unguarded_iff {phase' : Phase} (hphase : phase ≠ .guarded) (hphase' : phase' ≠ .guarded) :
    phase = .guarded ↔ phase' = .guarded :=
  ⟨fun h => absurd h hphase, fun h => absurd h hphase'⟩

/-- **A step of a task keeps the invariant.** -/
theorem Inv.taskStep (h : s.Inv) (ht : s.tasks[i]? = some t) {e : TaskEvent}
    (hstep : s.taskStep i t e = some s') : s'.Inv := by
  cases e with
  | lock =>
    rw [State.taskStep] at hstep
    split at hstep
    · rename_i ticket hkind hphase
      obtain rfl := Option.some.inj hstep
      have hholds : t.phase.holds = false := by
        rw [hphase]
        rfl
      have hfits := h.linked.fits_request ht hholds (by rw [hphase]; nofun)
      exact h.put ht hfits fun hreplacement => by rw [hkind] at hreplacement; cases hreplacement
    · cases hstep
  | check =>
    rw [State.taskStep] at hstep
    split at hstep
    · rename_i ticket hkind hphase
      have hkind' : t.kind = .replacement → False := by
        rw [hkind]
        nofun
      have hwaits : t.phase ≠ .waiting := by
        rw [hphase]
        nofun
      have hholds : t.phase.holds = true := by
        rw [hphase]
        rfl
      split_ifs at hstep with haccepts
      · obtain rfl := Option.some.inj hstep
        have hfits : s.Fits i .guarded s.gate :=
          h.linked.fits_same ht (by rw [hphase]; rfl) hwaits nofun
        exact h.put ht hfits fun hreplacement => (hkind' hreplacement).elim
      · obtain rfl := Option.some.inj hstep
        have hfits : s.Fits i .refused (s.gate.release i) :=
          h.linked.fits_release ht hholds rfl nofun
        exact h.put ht hfits fun hreplacement => (hkind' hreplacement).elim
    · cases hstep
  | enter =>
    rw [State.taskStep] at hstep
    split at hstep
    · rename_i hkind hphase
      obtain rfl := Option.some.inj hstep
      have hfits : s.Fits i .guarded s.gate := h.linked.fits_same ht (by rw [hphase]; rfl)
        (by rw [hphase]; nofun) nofun
      exact ⟨h.linked.put ht hfits rfl rfl, h.enter ht hkind hphase⟩
    · cases hstep
  | leave =>
    rw [State.taskStep] at hstep
    split at hstep
    · rename_i hkind hphase
      obtain rfl := Option.some.inj hstep
      have hfits : s.Fits i .leaving s.gate := h.linked.fits_same ht (by rw [hphase]; rfl)
        (by rw [hphase]; nofun) nofun
      exact ⟨h.linked.put ht hfits rfl rfl, h.leave ht hkind hphase⟩
    · cases hstep
  | release =>
    rw [State.taskStep] at hstep
    split at hstep
    · rename_i ticket hkind hphase
      obtain rfl := Option.some.inj hstep
      have hfits : s.Fits i .done (s.gate.release i) :=
        h.linked.fits_release ht (by rw [hphase]; rfl) rfl nofun
      exact h.put ht hfits fun hreplacement => by rw [hkind] at hreplacement; cases hreplacement
    · rename_i hphase
      obtain rfl := Option.some.inj hstep
      have hfits : s.Fits i .done (s.gate.release i) :=
        h.linked.fits_release ht (by rw [hphase]; rfl) rfl nofun
      exact h.put ht hfits fun _ => unguarded_iff nofun (by rw [hphase]; nofun)
    · cases hstep
  | drop =>
    rw [State.taskStep] at hstep
    split at hstep
    · rename_i hphase
      obtain rfl := Option.some.inj hstep
      have hfits : s.Fits i .done s.gate := h.linked.fits_same ht (by rw [hphase]; rfl)
        (by rw [hphase]; nofun) nofun
      exact h.put ht hfits fun _ => unguarded_iff nofun (by rw [hphase]; nofun)
    · rename_i hphase
      obtain rfl := Option.some.inj hstep
      have hfits : s.Fits i .done (s.gate.cancel i) := h.linked.fits_cancel ht hphase rfl nofun
      exact h.put ht hfits fun _ => unguarded_iff nofun (by rw [hphase]; nofun)
    · rename_i hphase
      obtain rfl := Option.some.inj hstep
      have hfits : s.Fits i .done (s.gate.release i) :=
        h.linked.fits_release ht (by rw [hphase]; rfl) rfl nofun
      exact h.put ht hfits fun _ => unguarded_iff nofun (by rw [hphase]; nofun)
    · cases hstep

theorem grant_cases (hstep : s.step .grant = some s') :
    ∃ (w : ℕ × LockMode) (t : Task) (gate : FairLock ℕ), s.gate.grant = some gate ∧
      s.gate.waiters = w :: gate.waiters ∧ s.tasks[w.1]? = some t ∧
      s' = { s.put w.1 t .granted with gate := gate } := by
  rw [State.step] at hstep
  split at hstep
  · rename_i gate w rest hgrant hwaiters
    obtain ⟨t, ht, rfl⟩ := Option.map_eq_some_iff.mp hstep
    obtain ⟨w', hcons, -⟩ := FairLock.grant_eq_some hgrant
    obtain ⟨-, rfl⟩ := List.cons.inj (hwaiters.symm.trans hcons)
    exact ⟨w, t, gate, hgrant, hwaiters, ht, rfl⟩
  · cases hstep

/-- The task that waits longest can be granted a gate that nobody has. -/
theorem grant_step {w : ℕ × LockMode} {rest : List (ℕ × LockMode)}
    (hholders : s.gate.holders = []) (hwaiters : s.gate.waiters = w :: rest)
    (ht : s.tasks[w.1]? = some t) :
    ∃ gate, coordinator.step s .grant = some { s.put w.1 t .granted with gate := gate } ∧
      gate.holders = [w] ∧ gate.waiters = rest := by
  obtain ⟨gate, hgrant, hholders', hrest⟩ := FairLock.grant_of_free hholders hwaiters
  refine ⟨gate, ?_, hholders', hrest⟩
  show s.step .grant = _
  rw [State.step]
  dsimp only
  rw [hgrant, hwaiters]
  dsimp only
  rw [ht]
  rfl

/-- **One step keeps the invariant.** -/
theorem Inv.step {event : Event} (h : s.Inv) (hstep : coordinator.step s event = some s') :
    s'.Inv := by
  cases event with
  | ticket =>
    obtain rfl := Option.some.inj hstep
    exact ⟨h.linked.add _, h.counted.add (fun ticket heq => (TaskKind.mutation.inj heq).symm) nofun⟩
  | beginReplacement =>
    obtain rfl := Option.some.inj hstep
    -- The task is added first, and then it joins the queue.
    have hadd : (s.add .replacement .ticketed).Inv := ⟨h.linked.add _, h.counted.add nofun nofun⟩
    have hnew := Pool.getElem?_added s.tasks
      { kind := .replacement, phase := .ticketed, begunAt := s.begun, replacingAt := s.replacing }
    have hfits := hadd.linked.fits_request hnew rfl nofun
    have hcounted : (s.add .replacement .waiting).Counted :=
      h.counted.add (fun _ heq => nomatch heq) (fun heq => nomatch heq)
    exact ⟨hadd.linked.put hnew hfits (Pool.set_add _ _ _).symm rfl, hcounted.withGate _⟩
  | grant =>
    obtain ⟨w, t, gate, hgrant, hwaiters, ht, rfl⟩ := grant_cases hstep
    have hwaits := h.linked.mem_waiters (m := w.2) ht (hwaiters ▸ List.mem_cons_self)
    refine h.put ht (h.linked.fits_grant hwaiters ht hgrant) fun _ => unguarded_iff nofun ?_
    rw [hwaits]
    nofun
  | task i e =>
    obtain ⟨t, ht, hstep⟩ := Option.bind_eq_some_iff.mp hstep
    exact h.taskStep ht hstep

theorem inv_init : init.Inv where
  linked :=
    { holds := fun _ _ ht => absurd ht (by simp [init])
      waits := fun _ _ ht => absurd ht (by simp [init])
      holders := fun _ hmem => absurd hmem List.not_mem_nil
      waiters := fun _ hmem => absurd hmem List.not_mem_nil
      nodup := List.nodup_nil }
  counted :=
    { epoch := rfl
      order := .inl rfl
      inProgress := fun _ _ ht => absurd ht (by simp [init])
      begun_le := fun _ _ ht => absurd ht (by simp [init])
      ticket := fun _ _ _ ht => absurd ht (by simp [init]) }

theorem inv_of_run {events : List Event} (h : coordinator.run events = some s) : s.Inv :=
  Machine.run_invariant inv_init (fun _ _ _ hs hstep => hs.step hstep) h

theorem Inv.runFrom {events : List Event} (h : s.Inv)
    (hrun : coordinator.runFrom s events = some s') : s'.Inv :=
  Machine.runFrom_invariant (fun _ _ _ hs hstep => hs.step hstep) h hrun

end State

end Coordinator
end ConfigMutation
end HelmSsh
