/-
# Executable machines and their runs

A concurrent component is a state, an executable partial step and a starting
state.  `step s a = none` says that the event `a` is not possible in `s`, so a
list of events is a run exactly when `runFrom` computes a state for it.  The
interleavings of several tasks are the lists of their events.

Every safety result of the development goes through one of these rules:

* `Machine.run_invariant` — what holds at the start and is kept by each step
  holds after every run;
* `Machine.run_invariant_of` — the same when a step is known to keep it only
  under a condition on the state before the step and on the event, for the runs
  whose steps all meet that condition (`Machine.MeetsFrom`);
* `Machine.run_history_invariant` — an invariant that relates the state to the
  events so far, and `Machine.run_history_invariant_of` under a condition;
* `Machine.run_iff_meets` — when the condition of each step is exact, so is that of the run;
* `Machine.run_refines_of` — a step that is zero or more steps of a second,
  abstract relation carries its runs to runs of that relation.
-/

import Mathlib.Logic.Relation
import Mathlib.Data.List.Basic
import Mathlib.Data.List.Induction

/-- A state machine: where it starts, and what each event does to a state. -/
structure Machine (σ α : Type*) where
  /-- The state before the first event. -/
  init : σ
  /-- The effect of an event, `none` when the event is not possible. -/
  step : σ → α → Option σ

namespace Machine

variable {σ α τ : Type*} (M : Machine σ α)

/-- The state after the events `as`, from `s`. -/
def runFrom (s : σ) : List α → Option σ
  | [] => some s
  | a :: as => (M.step s a).bind fun s' => runFrom s' as

/-- The state after the events `as`, from the start. -/
def run (as : List α) : Option σ :=
  M.runFrom M.init as

@[simp] theorem runFrom_nil (s : σ) : M.runFrom s [] = some s := rfl

@[simp] theorem runFrom_cons (s : σ) (a : α) (as : List α) :
    M.runFrom s (a :: as) = (M.step s a).bind fun s' => M.runFrom s' as := rfl

/-- A run of `as ++ bs` is a run of `as` and then one of `bs`. -/
theorem runFrom_append (s : σ) (as bs : List α) :
    M.runFrom s (as ++ bs) = (M.runFrom s as).bind fun s' => M.runFrom s' bs := by
  induction as generalizing s with
  | nil => rfl
  | cons a as ih =>
    rw [List.cons_append, runFrom_cons, runFrom_cons]
    cases M.step s a with
    | none => rfl
    | some s' => exact ih s'

variable {as : List α}

theorem runFrom_cons_eq_some {s s' : σ} {a : α} (h : M.runFrom s (a :: as) = some s') :
    ∃ m, M.step s a = some m ∧ M.runFrom m as = some s' := by
  rw [runFrom_cons, Option.bind_eq_some_iff] at h
  exact h

theorem runFrom_append_eq_some {s s' : σ} {bs : List α} (h : M.runFrom s (as ++ bs) = some s') :
    ∃ m, M.runFrom s as = some m ∧ M.runFrom m bs = some s' := by
  rw [runFrom_append, Option.bind_eq_some_iff] at h
  exact h

/-- The machine whose events have a guard and an effect. -/
def guarded (init : σ) (enabled : σ → α → Prop) [∀ s a, Decidable (enabled s a)]
    (next : σ → α → σ) : Machine σ α where
  init := init
  step s a := if enabled s a then some (next s a) else none

theorem guarded_step {init : σ} {enabled : σ → α → Prop} [∀ s a, Decidable (enabled s a)]
    {next : σ → α → σ} {s s' : σ} {a : α} :
    (guarded init enabled next).step s a = some s' ↔ enabled s a ∧ next s a = s' := by
  simp [guarded]

/-- The states that some run reaches. -/
def Reachable (s : σ) : Prop :=
  ∃ as, M.run as = some s

/-- Every step of the run of `as` from `s` meets the condition `ok` on the state
before the step and the event. -/
def MeetsFrom (ok : σ → α → Prop) (s : σ) : List α → Prop
  | [] => True
  | a :: as => ok s a ∧ ∀ s', M.step s a = some s' → MeetsFrom ok s' as

/-- Every step of the run of `as` from the start meets `ok`. -/
def Meets (ok : σ → α → Prop) (as : List α) : Prop :=
  M.MeetsFrom ok M.init as

/-- The condition of a run can be checked event by event. -/
instance decidableMeetsFrom (ok : σ → α → Prop) [∀ s a, Decidable (ok s a)] :
    (s : σ) → (as : List α) → Decidable (M.MeetsFrom ok s as)
  | _, [] => isTrue trivial
  | s, a :: as =>
    match h : M.step s a with
    | none => decidable_of_iff (ok s a) (by simp [MeetsFrom, h])
    | some m =>
      have := decidableMeetsFrom ok m as
      decidable_of_iff (ok s a ∧ M.MeetsFrom ok m as) (by simp [MeetsFrom, h])

instance decidableMeets (ok : σ → α → Prop) [∀ s a, Decidable (ok s a)] (as : List α) :
    Decidable (M.Meets ok as) :=
  M.decidableMeetsFrom ok M.init as

/-- The condition of a run of `as ++ bs` is that of `as` and, from the state that `as`
reaches, that of `bs`. -/
theorem meetsFrom_append {M : Machine σ α} {ok : σ → α → Prop} {s s' : σ} {bs : List α}
    (hok : M.MeetsFrom ok s (as ++ bs)) (h : M.runFrom s as = some s') :
    M.MeetsFrom ok s as ∧ M.MeetsFrom ok s' bs := by
  induction as generalizing s with
  | nil =>
    obtain rfl := Option.some.inj h
    exact ⟨trivial, hok⟩
  | cons a as ih =>
    obtain ⟨m, hm, hrest⟩ := M.runFrom_cons_eq_some h
    obtain ⟨hrestOk, hbs⟩ := ih (hok.2 m hm) hrest
    refine ⟨⟨hok.1, fun m' hm' => ?_⟩, hbs⟩
    rw [hm] at hm'
    obtain rfl := Option.some.inj hm'
    exact hrestOk

/-- A condition on the events alone joins the condition of a run. -/
theorem MeetsFrom.and_event {M : Machine σ α} {ok : σ → α → Prop} {P : α → Prop} {s : σ}
    (hok : M.MeetsFrom ok s as) (hP : ∀ a ∈ as, P a) :
    M.MeetsFrom (fun s a => ok s a ∧ P a) s as := by
  induction as generalizing s with
  | nil => trivial
  | cons a as ih =>
    refine ⟨⟨hok.1, hP a List.mem_cons_self⟩, fun m hm => ?_⟩
    exact ih (hok.2 m hm) (fun b hb => hP b (List.mem_cons_of_mem a hb))

theorem meetsFrom_of_forall {M : Machine σ α} {P : α → Prop} {s : σ}
    (hP : ∀ a ∈ as, P a) : M.MeetsFrom (fun _ a => P a) s as := by
  induction as generalizing s with
  | nil => trivial
  | cons a as ih =>
    exact ⟨hP a List.mem_cons_self, fun m _ => ih fun b hb => hP b (List.mem_cons_of_mem a hb)⟩

/-- Some step of the run of `as` from `s` meets `p`. -/
def PassesFrom (p : σ → α → Prop) (s : σ) : List α → Prop
  | [] => False
  | a :: as => p s a ∨ ∃ s', M.step s a = some s' ∧ PassesFrom p s' as

/-- Some step of the run of `as` from the start meets `p`. -/
def Passes (p : σ → α → Prop) (as : List α) : Prop :=
  M.PassesFrom p M.init as

/-- Whether a run passes through such a step can be checked event by event. -/
instance decidablePassesFrom (p : σ → α → Prop) [∀ s a, Decidable (p s a)] :
    (s : σ) → (as : List α) → Decidable (M.PassesFrom p s as)
  | _, [] => isFalse id
  | s, a :: as =>
    match h : M.step s a with
    | none => decidable_of_iff (p s a) (by simp [PassesFrom, h])
    | some m =>
      have := decidablePassesFrom p m as
      decidable_of_iff (p s a ∨ M.PassesFrom p m as) (by simp [PassesFrom, h])

instance decidablePasses (p : σ → α → Prop) [∀ s a, Decidable (p s a)] (as : List α) :
    Decidable (M.Passes p as) :=
  M.decidablePassesFrom p M.init as

/-- A run that has passed through such a step has done so when it goes on. -/
theorem PassesFrom.append {M : Machine σ α} {p : σ → α → Prop} {s : σ}
    (h : M.PassesFrom p s as) (bs : List α) : M.PassesFrom p s (as ++ bs) := by
  induction as generalizing s with
  | nil => exact h.elim
  | cons a as ih =>
    rcases h with h | ⟨m, hm, h⟩
    · exact .inl h
    · exact .inr ⟨m, hm, ih h⟩

theorem passesFrom_last {M : Machine σ α} {p : σ → α → Prop} {s s' : σ} {a : α}
    (h : M.runFrom s as = some s') (hp : p s' a) : M.PassesFrom p s (as ++ [a]) := by
  induction as generalizing s with
  | nil =>
    obtain rfl := Option.some.inj h
    exact .inl hp
  | cons b as ih =>
    obtain ⟨m, hm, hrest⟩ := M.runFrom_cons_eq_some h
    exact .inr ⟨m, hm, ih hrest⟩

section Invariants

variable {M} {I : σ → Prop} {ok : σ → α → Prop}

variable {as : List α}

/-- **The conditional invariant rule.**  If each step that meets `ok` keeps `I`,
then `I` holds after every run whose steps all meet `ok`. -/
theorem runFrom_invariant_of (hstep : ∀ s a s', I s → ok s a → M.step s a = some s' → I s')
    {s s' : σ} (hI : I s) (hok : M.MeetsFrom ok s as) (h : M.runFrom s as = some s') : I s' := by
  induction as generalizing s with
  | nil =>
    obtain rfl := Option.some.inj h
    exact hI
  | cons a as ih =>
    obtain ⟨m, hm, hrest⟩ := M.runFrom_cons_eq_some h
    exact ih (hstep s a m hI hok.1 hm) (hok.2 m hm) hrest

theorem run_invariant_of (hinit : I M.init)
    (hstep : ∀ s a s', I s → ok s a → M.step s a = some s' → I s')
    {s : σ} (hok : M.Meets ok as) (h : M.run as = some s) : I s :=
  runFrom_invariant_of hstep hinit hok h

theorem runFrom_invariant (hstep : ∀ s a s', I s → M.step s a = some s' → I s')
    {s s' : σ} (hI : I s) (h : M.runFrom s as = some s') : I s' := by
  induction as generalizing s with
  | nil =>
    obtain rfl := Option.some.inj h
    exact hI
  | cons a as ih =>
    obtain ⟨m, hm, hrest⟩ := M.runFrom_cons_eq_some h
    exact ih (hstep s a m hI hm) hrest

/-- **The invariant rule.**  What holds at the start and is kept by each step
holds after every run. -/
theorem run_invariant (hinit : I M.init) (hstep : ∀ s a s', I s → M.step s a = some s' → I s')
    {s : σ} (h : M.run as = some s) : I s :=
  runFrom_invariant hstep hinit h

theorem Reachable.invariant (hinit : I M.init)
    (hstep : ∀ s a s', I s → M.step s a = some s' → I s')
    {s : σ} (h : M.Reachable s) : I s := by
  obtain ⟨as, has⟩ := h
  exact run_invariant hinit hstep has

/-- **The invariant rule with history.**  An invariant may speak of the events so
far: it holds of the empty history, and each step carries it to the history with
the step's event at its end. -/
theorem run_history_invariant {J : List α → σ → Prop} (hinit : J [] M.init)
    (hstep : ∀ as s a s', J as s → M.step s a = some s' → J (as ++ [a]) s')
    {s : σ} (h : M.run as = some s) : J as s := by
  have key : ∀ bs as t, J as t → M.runFrom t bs = some s → J (as ++ bs) s := by
    intro bs
    induction bs with
    | nil =>
      intro as t hJ hrun
      obtain rfl := Option.some.inj hrun
      rwa [List.append_nil]
    | cons b bs ih =>
      intro as t hJ hrun
      obtain ⟨m, hm, hrest⟩ := M.runFrom_cons_eq_some hrun
      rw [List.append_cons]
      exact ih (as ++ [b]) m (hstep as t b m hJ hm) hrest
  exact key as [] M.init hinit h

/-- The invariant rule with history, for the runs whose steps all meet a condition. -/
theorem run_history_invariant_of {J : List α → σ → Prop} (hinit : J [] M.init)
    (hstep : ∀ as s a s', M.run as = some s → J as s → ok s a → M.step s a = some s' →
      J (as ++ [a]) s') {s : σ} (hok : M.Meets ok as) (h : M.run as = some s) : J as s := by
  have key : ∀ as s, M.run as = some s → M.Meets ok as → J as s := by
    intro as
    induction as using List.reverseRecOn with
    | nil =>
      intro s hrun _
      obtain rfl := Option.some.inj hrun
      exact hinit
    | append_singleton as a ih =>
      intro s hrun hmeets
      obtain ⟨m, hm, hlast⟩ := M.runFrom_append_eq_some hrun
      obtain ⟨hbefore, hstepOk⟩ := meetsFrom_append hmeets hm
      obtain ⟨s', hs', hnil⟩ := M.runFrom_cons_eq_some hlast
      obtain rfl := Option.some.inj hnil
      exact hstep as m a s' hm (ih m hm hbefore) hstepOk.1 hs'
  exact key as s h hok

/-- **The rule of the exact condition.**  If a step leads to `P` exactly from `P` and under `ok`,
then a run leads to `P` exactly from `P` and when all its steps meet `ok`. -/
theorem runFrom_iff_meetsFrom {P : σ → Prop} (hkeep : ∀ s a s', I s → M.step s a = some s' → I s')
    (hstep : ∀ s a s', I s → M.step s a = some s' → (P s' ↔ P s ∧ ok s a))
    {s s' : σ} (hI : I s) (h : M.runFrom s as = some s') :
    P s' ↔ P s ∧ M.MeetsFrom ok s as := by
  induction as generalizing s with
  | nil =>
    obtain rfl := Option.some.inj h
    exact ⟨fun hP => ⟨hP, trivial⟩, fun hP => hP.1⟩
  | cons a as ih =>
    obtain ⟨m, hm, hrest⟩ := M.runFrom_cons_eq_some h
    rw [ih (hkeep s a m hI hm) hrest, hstep s a m hI hm]
    constructor
    · rintro ⟨⟨hP, hok⟩, hmeets⟩
      refine ⟨hP, hok, fun m' hm' => ?_⟩
      obtain rfl := Option.some.inj (hm.symm.trans hm')
      exact hmeets
    · rintro ⟨hP, hok, hmeets⟩
      exact ⟨⟨hP, hok⟩, hmeets m hm⟩

theorem run_iff_meets {P : σ → Prop} (hinit : I M.init) (hP : P M.init)
    (hkeep : ∀ s a s', I s → M.step s a = some s' → I s')
    (hstep : ∀ s a s', I s → M.step s a = some s' → (P s' ↔ P s ∧ ok s a))
    {s : σ} (h : M.run as = some s) : P s ↔ M.Meets ok as :=
  (runFrom_iff_meetsFrom hkeep hstep hinit h).trans ⟨fun h => h.2, fun h => ⟨hP, h⟩⟩

end Invariants

/-- **The refinement rule.**  If each step of the machine that meets `ok`, seen through
`abs`, is zero or more steps of the relation `R`, then so is each run whose steps all do. -/
theorem run_refines_of {R : τ → τ → Prop} (abs : σ → τ) {I : σ → Prop} {ok : σ → α → Prop}
    (hinit : I M.init) (hI : ∀ s a s', I s → ok s a → M.step s a = some s' → I s')
    (hstep : ∀ s a s', I s → ok s a → M.step s a = some s' →
      Relation.ReflTransGen R (abs s) (abs s'))
    {s : σ} (hok : M.Meets ok as) (h : M.run as = some s) :
    Relation.ReflTransGen R (abs M.init) (abs s) := by
  let J (t : σ) : Prop := I t ∧ Relation.ReflTransGen R (abs M.init) (abs t)
  have hinit : J M.init := ⟨hinit, .refl⟩
  have hkeep : ∀ t a t', J t → ok t a → M.step t a = some t' → J t' := by
    rintro t a t' ⟨ht, hreach⟩ hmeets hm
    exact ⟨hI t a t' ht hmeets hm, hreach.trans (hstep t a t' ht hmeets hm)⟩
  exact (run_invariant_of hinit hkeep hok h).2

end Machine
