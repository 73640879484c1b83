/-
# Weakly held locks, one for each key

A registry of mutexes that are created on demand: it has a weak pointer for each key, and a
mutex lives as long as some caller holds a strong one.  A caller asks for the mutex of a key
(`KeyedLocks.get`), waits for its guard (`KeyedLocks.lock`) and drops both
(`KeyedLocks.drop`).  When the last caller of a key is gone, so is its mutex, and the next
caller gets a new one.

What a caller relies on is `KeyedLocks.guards_unique`: two callers never hold the guards of one
key, although the key may have had many mutexes.  It holds because a mutex that a caller still
holds is the one in the registry, which is a field of the structure.
-/

import Mathlib.Data.Nat.Notation
import Mathlib.Logic.Function.Basic
import Mathlib.Tactic.Common

/-- A strong pointer of a caller to the mutex of a key, and whether the caller holds its
guard. -/
structure LockHandle (κ χ : Type) where
  caller : χ
  key : κ
  mutex : ℕ
  guarded : Bool
  deriving DecidableEq

/-- The registry of the weak pointers and the strong pointers of the callers.  The mutexes are
numbered in the order of their creation. -/
structure KeyedLocks (κ χ : Type) where
  registry : κ → Option ℕ
  handles : List (LockHandle κ χ)
  created : ℕ
  /-- A mutex that some caller holds is the registered one of its key. -/
  registered : ∀ h ∈ handles, registry h.key = some h.mutex
  fresh : ∀ k m, registry k = some m → m < created
  distinct : ∀ k k' m, registry k = some m → registry k' = some m → k = k'
  /-- A mutex has one guard. -/
  exclusive : ∀ h ∈ handles, ∀ h' ∈ handles, h.guarded = true → h'.guarded = true →
    h.mutex = h'.mutex → h.caller = h'.caller

namespace KeyedLocks

variable {κ χ : Type}

/-- No mutex was asked for. -/
def empty : KeyedLocks κ χ where
  registry _ := none
  handles := []
  created := 0
  registered := by simp
  fresh := by simp
  distinct := by simp
  exclusive := by simp

variable (l : KeyedLocks κ χ) (c : χ) (k : κ)

/-- A caller holds a mutex. -/
def alive (m : ℕ) : Bool :=
  l.handles.any fun h => h.mutex = m

/-- The registry after the pointers to mutexes that are gone were removed. -/
def retained (k : κ) : Option ℕ :=
  (l.registry k).filter l.alive

theorem retained_eq_some {l : KeyedLocks κ χ} {k : κ} {m : ℕ} :
    l.retained k = some m ↔ l.registry k = some m ∧ l.alive m = true :=
  Option.filter_eq_some_iff

theorem retained_of_mem {l : KeyedLocks κ χ} {h : LockHandle κ χ} (hmem : h ∈ l.handles) :
    l.retained h.key = some h.mutex := by
  refine retained_eq_some.mpr ⟨l.registered h hmem, ?_⟩
  exact List.any_eq_true.mpr ⟨h, hmem, decide_eq_true rfl⟩

/-- The caller asks for the mutex of a key: the registered one, or a new one when it is
gone. -/
def get [DecidableEq κ] : KeyedLocks κ χ :=
  match hk : l.retained k with
  | some m =>
    { l with
      registry := l.retained
      handles := ⟨c, k, m, false⟩ :: l.handles
      registered := by
        intro h hmem
        rcases List.mem_cons.mp hmem with rfl | hold
        · exact hk
        · exact retained_of_mem hold
      fresh := fun k' m' h => l.fresh k' m' (retained_eq_some.mp h).1
      distinct := fun k₁ k₂ m' h₁ h₂ =>
        l.distinct k₁ k₂ m' (retained_eq_some.mp h₁).1 (retained_eq_some.mp h₂).1
      exclusive := by
        intro h hmem h' hmem' hg hg' heq
        rcases List.mem_cons.mp hmem with rfl | hold
        · cases hg
        · rcases List.mem_cons.mp hmem' with rfl | hold'
          · cases hg'
          · exact l.exclusive h hold h' hold' hg hg' heq }
  | none =>
    { l with
      registry := Function.update l.retained k (some l.created)
      handles := ⟨c, k, l.created, false⟩ :: l.handles
      created := l.created + 1
      registered := by
        intro h hmem
        rcases List.mem_cons.mp hmem with rfl | hold
        · rw [Function.update_self]
        · have hret := retained_of_mem hold
          rw [Function.update_of_ne, hret]
          rintro rfl
          rw [hret] at hk
          cases hk
      fresh := by
        intro k' m' h
        by_cases heq : k' = k
        · subst heq
          rw [Function.update_self] at h
          obtain rfl := Option.some.inj h
          omega
        · rw [Function.update_of_ne heq] at h
          have hlt := l.fresh k' m' (retained_eq_some.mp h).1
          omega
      distinct := by
        intro k₁ k₂ m' h₁ h₂
        by_cases heq₁ : k₁ = k <;> by_cases heq₂ : k₂ = k
        · rw [heq₁, heq₂]
        · subst heq₁
          rw [Function.update_self] at h₁
          obtain rfl := Option.some.inj h₁
          rw [Function.update_of_ne heq₂] at h₂
          have hlt := l.fresh k₂ _ (retained_eq_some.mp h₂).1
          omega
        · subst heq₂
          rw [Function.update_self] at h₂
          obtain rfl := Option.some.inj h₂
          rw [Function.update_of_ne heq₁] at h₁
          have hlt := l.fresh k₁ _ (retained_eq_some.mp h₁).1
          omega
        · rw [Function.update_of_ne heq₁] at h₁
          rw [Function.update_of_ne heq₂] at h₂
          exact l.distinct k₁ k₂ m' (retained_eq_some.mp h₁).1 (retained_eq_some.mp h₂).1
      exclusive := by
        intro h hmem h' hmem' hg hg' heq
        rcases List.mem_cons.mp hmem with rfl | hold
        · cases hg
        · rcases List.mem_cons.mp hmem' with rfl | hold'
          · cases hg'
          · exact l.exclusive h hold h' hold' hg hg' heq }

/-- No guard of a mutex that the caller has a pointer to is held. -/
def Free : Prop :=
  ∀ h ∈ l.handles, h.caller = c → ∀ h' ∈ l.handles, h'.guarded = true → h'.mutex ≠ h.mutex

instance [DecidableEq χ] : Decidable (l.Free c) := by
  unfold Free
  infer_instance

/-- The caller gets the guard of its mutex, when it is free. -/
def lock [DecidableEq χ] : KeyedLocks κ χ :=
  if hfree : l.Free c then
    { l with
      handles := l.handles.map fun h => if h.caller = c then { h with guarded := true } else h
      registered := by
        intro h hmem
        obtain ⟨g, hg, rfl⟩ := List.mem_map.mp hmem
        split_ifs
        · exact l.registered g hg
        · exact l.registered g hg
      exclusive := by
        intro h hmem h' hmem' hguard hguard' heq
        obtain ⟨g, hg, rfl⟩ := List.mem_map.mp hmem
        obtain ⟨g', hg', rfl⟩ := List.mem_map.mp hmem'
        split_ifs at hguard hguard' heq ⊢ with hc hc' hc'
        · exact hc.trans hc'.symm
        · exact absurd heq.symm (hfree g hg hc g' hg' hguard')
        · exact absurd heq (hfree g' hg' hc' g hg hguard)
        · exact l.exclusive g hg g' hg' hguard hguard' heq }
  else l

/-- The caller drops its guard and its pointer. -/
def drop [DecidableEq χ] : KeyedLocks κ χ :=
  { l with
    handles := l.handles.filter fun h => h.caller ≠ c
    registered := fun h hmem => l.registered h (List.mem_filter.mp hmem).1
    exclusive := fun h hmem h' hmem' =>
      l.exclusive h (List.mem_filter.mp hmem).1 h' (List.mem_filter.mp hmem').1 }

/-- The caller has a pointer to the mutex of a key. -/
def Holds : Prop :=
  ∃ h ∈ l.handles, h.caller = c ∧ h.key = k

/-- The caller has the guard of the mutex of a key. -/
def Guards : Prop :=
  ∃ h ∈ l.handles, h.caller = c ∧ h.key = k ∧ h.guarded = true

instance [DecidableEq κ] [DecidableEq χ] : Decidable (l.Holds c k) := by
  unfold Holds
  infer_instance

instance [DecidableEq κ] [DecidableEq χ] : Decidable (l.Guards c k) := by
  unfold Guards
  infer_instance

variable {l c k} {c' : χ} {k' : κ}

/-- **Two callers do not hold the guards of one key.** -/
theorem guards_unique (h : l.Guards c k) (h' : l.Guards c' k) : c = c' := by
  obtain ⟨g, hg, rfl, rfl, hguard⟩ := h
  obtain ⟨g', hg', rfl, hkey, hguard'⟩ := h'
  refine l.exclusive g hg g' hg' hguard hguard' ?_
  have hmutex := l.registered g' hg'
  rw [hkey, l.registered g hg] at hmutex
  exact Option.some.inj hmutex

/-! ### What the calls change -/

/-- The pointers after a caller asked for a mutex are the old ones and its new one. -/
theorem handles_get [DecidableEq κ] (l : KeyedLocks κ χ) (c : χ) (k : κ) :
    ∃ m, (l.get c k).handles = ⟨c, k, m, false⟩ :: l.handles := by
  unfold get
  split
  · exact ⟨_, rfl⟩
  · exact ⟨_, rfl⟩

@[simp] theorem guards_get [DecidableEq κ] : (l.get c k).Guards c' k' ↔ l.Guards c' k' := by
  obtain ⟨m, hm⟩ := handles_get l c k
  simp [Guards, hm]

theorem holds_get [DecidableEq κ] :
    (l.get c k).Holds c' k' ↔ (c = c' ∧ k = k') ∨ l.Holds c' k' := by
  obtain ⟨m, hm⟩ := handles_get l c k
  simp [Holds, hm]

@[simp] theorem holds_lock [DecidableEq χ] : (l.lock c).Holds c' k' ↔ l.Holds c' k' := by
  unfold lock
  split_ifs
  · simp only [Holds, List.mem_map]
    constructor
    · rintro ⟨_, ⟨g, hg, rfl⟩, hcaller, hkey⟩
      refine ⟨g, hg, ?_⟩
      split_ifs at hcaller hkey
      · exact ⟨hcaller, hkey⟩
      · exact ⟨hcaller, hkey⟩
    · rintro ⟨g, hg, hcaller, hkey⟩
      refine ⟨_, ⟨g, hg, rfl⟩, ?_⟩
      split_ifs
      · exact ⟨hcaller, hkey⟩
      · exact ⟨hcaller, hkey⟩
  · exact Iff.rfl

/-- A caller keeps its guard when another one gets its own. -/
theorem Guards.lock [DecidableEq χ] (h : l.Guards c' k') (c : χ) : (l.lock c).Guards c' k' := by
  unfold KeyedLocks.lock
  split_ifs
  · obtain ⟨g, hg, hcaller, hkey, hguard⟩ := h
    refine ⟨_, List.mem_map.mpr ⟨g, hg, rfl⟩, ?_⟩
    split_ifs
    · exact ⟨hcaller, hkey, rfl⟩
    · exact ⟨hcaller, hkey, hguard⟩
  · exact h

theorem Holds.lock [DecidableEq χ] (h : l.Holds c k) (hfree : l.Free c) :
    (l.lock c).Guards c k := by
  obtain ⟨g, hg, hcaller, hkey⟩ := h
  rw [KeyedLocks.lock, dif_pos hfree]
  refine ⟨_, List.mem_map.mpr ⟨g, hg, rfl⟩, ?_⟩
  rw [if_pos hcaller]
  exact ⟨hcaller, hkey, rfl⟩

@[simp] theorem guards_drop [DecidableEq χ] :
    (l.drop c).Guards c' k' ↔ c' ≠ c ∧ l.Guards c' k' := by
  simp only [Guards, drop, List.mem_filter, decide_eq_true_eq]
  constructor
  · rintro ⟨g, ⟨hg, hne⟩, rfl, hrest⟩
    exact ⟨hne, g, hg, rfl, hrest⟩
  · rintro ⟨hne, g, hg, rfl, hrest⟩
    exact ⟨g, ⟨hg, hne⟩, rfl, hrest⟩

@[simp] theorem holds_drop [DecidableEq χ] : (l.drop c).Holds c' k' ↔ c' ≠ c ∧ l.Holds c' k' := by
  simp only [Holds, drop, List.mem_filter, decide_eq_true_eq]
  constructor
  · rintro ⟨g, ⟨hg, hne⟩, rfl, hrest⟩
    exact ⟨hne, g, hg, rfl, hrest⟩
  · rintro ⟨hne, g, hg, rfl, hrest⟩
    exact ⟨g, ⟨hg, hne⟩, rfl, hrest⟩

/-- A caller that was gone gets a new mutex of the key, and its guard. -/
example :
    let l := (((empty : KeyedLocks ℕ ℕ).get 0 7).lock 0).drop 0
    ((l.get 1 7).lock 1).Guards 1 7 := by
  decide +kernel

end KeyedLocks
