/-
# Pools of tasks

The tasks of a concurrent component, numbered in the order of their creation.  A
step adds a task at the end or replaces one.  The two rules say what a task of
the new pool is: the one that was added or replaced, or an old one.
-/

import Mathlib.Data.List.Basic
import Mathlib.Data.Nat.Notation

namespace Pool

variable {τ : Type*}

theorem act_eq_some {σ : Type*} {task : Option τ} {p : τ → Prop} {_ : DecidablePred p}
    {next : τ → σ} {s : σ} :
    (task.bind fun t => if p t then some (next t) else none) = some s ↔
      ∃ t, task = some t ∧ p t ∧ next t = s := by
  simp only [Option.bind_eq_some_iff, Option.ite_none_right_eq_some, Option.some_inj]

variable {pool : List τ} {i : ℕ}

/-- A task after one was added is the new one or an old one. -/
theorem getElem?_add {t u : τ} {j : ℕ} (h : (pool ++ [t])[j]? = some u) :
    (j = pool.length ∧ u = t) ∨ pool[j]? = some u := by
  rcases Nat.lt_or_ge j pool.length with hlt | hge
  · rw [List.getElem?_append_left hlt] at h
    exact .inr h
  · rw [List.getElem?_append_right hge] at h
    obtain ⟨hlt, hget⟩ := List.getElem?_eq_some_iff.mp h
    rw [List.length_singleton] at hlt
    have hj : j = pool.length := by omega
    subst hj
    simp only [Nat.sub_self, List.getElem_cons_zero] at hget
    exact .inl ⟨rfl, hget.symm⟩

/-- A task after the `i`-th was replaced is the new one at `i`, or an old one
elsewhere. -/
theorem getElem?_set {t u : τ} {j : ℕ} (h : (pool.set i t)[j]? = some u) :
    (j = i ∧ u = t) ∨ (j ≠ i ∧ pool[j]? = some u) := by
  by_cases hij : i = j
  · subst hij
    obtain ⟨hlt, hget⟩ := List.getElem?_eq_some_iff.mp h
    rw [List.getElem_set_self] at hget
    exact .inl ⟨rfl, hget.symm⟩
  · rw [List.getElem?_set_ne hij] at h
    exact .inr ⟨fun hji => hij hji.symm, h⟩

theorem getElem?_set_self {t u : τ} (h : pool[i]? = some t) :
    (pool.set i u)[i]? = some u := by
  obtain ⟨hlt, -⟩ := List.getElem?_eq_some_iff.mp h
  rw [List.getElem?_set_self hlt]

theorem getElem?_add_left {t u : τ} {j : ℕ} (h : pool[j]? = some u) :
    (pool ++ [t])[j]? = some u := by
  obtain ⟨hlt, -⟩ := List.getElem?_eq_some_iff.mp h
  rw [List.getElem?_append_left hlt]
  exact h

theorem set_add (pool : List τ) (t u : τ) : (pool ++ [t]).set pool.length u = pool ++ [u] := by
  rw [List.set_append_right _ _ (Nat.le_refl _), Nat.sub_self]
  rfl

theorem getElem?_added (pool : List τ) (t : τ) : (pool ++ [t])[pool.length]? = some t := by
  rw [List.getElem?_append_right (Nat.le_refl _), Nat.sub_self]
  rfl

/-- What some task satisfies, some task still satisfies after the `i`-th was
replaced, if the new one satisfies it where the old one did. -/
theorem exists_set {t u : τ} {P : τ → Prop} (ht : pool[i]? = some t)
    (h : ∃ (k : ℕ) (v : τ), pool[k]? = some v ∧ P v) (hP : P t → P u) :
    ∃ (k : ℕ) (v : τ), (pool.set i u)[k]? = some v ∧ P v := by
  obtain ⟨k, v, hv, hPv⟩ := h
  by_cases hki : k = i
  · subst hki
    rw [ht] at hv
    obtain rfl := Option.some.inj hv
    exact ⟨k, u, getElem?_set_self ht, hP hPv⟩
  · exact ⟨k, v, by rw [List.getElem?_set_ne (fun h => hki h.symm)]; exact hv, hPv⟩

theorem exists_add {t : τ} {P : τ → Prop}
    (h : ∃ (k : ℕ) (v : τ), pool[k]? = some v ∧ P v) : ∃ (k : ℕ) (v : τ),
      (pool ++ [t])[k]? = some v ∧ P v := by
  obtain ⟨k, v, hv, hPv⟩ := h
  exact ⟨k, v, getElem?_add_left hv, hPv⟩

theorem mem_eraseIdx_of_ne {t u : τ} (ht : pool[i]? = some t)
    (hu : u ∈ pool) (hne : u ≠ t) : u ∈ pool.eraseIdx i := by
  obtain ⟨k, hk⟩ := List.mem_iff_getElem?.mp hu
  refine List.mem_eraseIdx_iff_getElem?.mpr ⟨k, ?_, hk⟩
  rintro rfl
  exact hne (Option.some.inj (hk.symm.trans ht))

/-- A task other than the `i`-th is still there after that one was replaced. -/
theorem mem_set_of_ne {t u v : τ} (ht : pool[i]? = some t)
    (hu : u ∈ pool) (hne : u ≠ t) : u ∈ pool.set i v := by
  obtain ⟨k, hk⟩ := List.mem_iff_getElem?.mp hu
  have hki : i ≠ k := by
    rintro rfl
    exact hne (Option.some.inj (hk.symm.trans ht))
  exact List.mem_of_getElem? ((List.getElem?_set_ne hki).trans hk)

/-! ### Pools that are related task by task -/

/-- Two pools have the same length, and their tasks are related one by one. -/
def Related (R : τ → τ → Prop) (pool pool' : List τ) : Prop :=
  ∀ i : ℕ, (pool[i]? = none ∧ pool'[i]? = none) ∨
    ∃ t t', pool[i]? = some t ∧ pool'[i]? = some t' ∧ R t t'

variable {R : τ → τ → Prop} {pool pool' : List τ}

/-- A task of the second pool is related to one of the first. -/
theorem Related.back (h : Related R pool pool') {t' : τ} (ht' : pool'[i]? = some t') :
    ∃ t, pool[i]? = some t ∧ R t t' := by
  rcases h i with ⟨_, hnone⟩ | ⟨t, u, ht, hu, hR⟩
  · rw [hnone] at ht'
    cases ht'
  · obtain rfl := Option.some.inj (hu.symm.trans ht')
    exact ⟨t, ht, hR⟩

/-- A task of the first pool is related to one of the second. -/
theorem Related.forth (h : Related R pool pool') {t : τ} (ht : pool[i]? = some t) :
    ∃ t', pool'[i]? = some t' ∧ R t t' := by
  rcases h i with ⟨hnone, _⟩ | ⟨u, t', hu, ht', hR⟩
  · rw [hnone] at ht
    cases ht
  · obtain rfl := Option.some.inj (hu.symm.trans ht)
    exact ⟨t', ht', hR⟩

theorem Related.mono {R' : τ → τ → Prop} (h : Related R pool pool')
    (hR : ∀ t t', R t t' → R' t t') : Related R' pool pool' := by
  intro i
  rcases h i with hnone | ⟨t, t', ht, ht', htt'⟩
  · exact .inl hnone
  · exact .inr ⟨t, t', ht, ht', hR t t' htt'⟩

theorem related_set (hrefl : ∀ (j : ℕ) (t : τ), pool[j]? = some t → R t t) {t u : τ}
    (ht : pool[i]? = some t) (hR : R t u) : Related R pool (pool.set i u) := by
  intro j
  by_cases hij : i = j
  · rw [← hij]
    exact .inr ⟨t, u, ht, getElem?_set_self ht, hR⟩
  · rw [List.getElem?_set_ne hij]
    cases hj : pool[j]? with
    | none => exact .inl ⟨rfl, rfl⟩
    | some v => exact .inr ⟨v, v, rfl, rfl, hrefl j v hj⟩

theorem related_mapIdx {f : ℕ → τ → τ} (hR : ∀ i t, pool[i]? = some t → R t (f i t)) :
    Related R pool (pool.mapIdx f) := by
  intro i
  rw [List.getElem?_mapIdx]
  cases hi : pool[i]? with
  | none => exact .inl ⟨rfl, rfl⟩
  | some t => exact .inr ⟨t, f i t, rfl, rfl, hR i t hi⟩

theorem related_modify_of {f : τ → τ} (hrefl : ∀ t, R t t)
    (hR : ∀ t, pool[i]? = some t → R t (f t)) : Related R pool (pool.modify i f) := by
  intro j
  rw [List.getElem?_modify]
  cases hj : pool[j]? with
  | none => exact .inl ⟨rfl, rfl⟩
  | some t =>
    refine .inr ⟨t, _, rfl, rfl, ?_⟩
    split_ifs with hij
    · exact hR t (hij ▸ hj)
    · exact hrefl t

theorem related_modify {f : τ → τ} (hrefl : ∀ t, R t t) (hR : ∀ t, R t (f t)) (i : ℕ) :
    Related R pool (pool.modify i f) :=
  related_modify_of hrefl fun t _ => hR t

theorem related_map {f : τ → τ} (hR : ∀ t, R t (f t)) : Related R pool (pool.map f) := by
  intro i
  rw [List.getElem?_map]
  cases hi : pool[i]? with
  | none => exact .inl ⟨rfl, rfl⟩
  | some t => exact .inr ⟨t, f t, rfl, rfl, hR t⟩

theorem related_refl (hrefl : ∀ t, R t t) : Related R pool pool := by
  intro i
  cases hi : pool[i]? with
  | none => exact .inl ⟨rfl, rfl⟩
  | some t => exact .inr ⟨t, t, rfl, rfl, hrefl t⟩

/-! ### How many tasks of a pool satisfy a condition -/

/-- A replaced task that satisfies a condition only where the old one did does not add to the
count. -/
theorem countP_set_le {p : τ → Bool} {t u : τ} (h : pool[i]? = some t)
    (hp : p u = true → p t = true) : (pool.set i u).countP p ≤ pool.countP p := by
  induction pool generalizing i with
  | nil => cases h
  | cons v pool ih =>
    cases i with
    | zero =>
      obtain rfl := Option.some.inj h
      rw [List.set_cons_zero, List.countP_cons, List.countP_cons]
      split_ifs with hu hv
      · omega
      · exact absurd (hp hu) hv
      · omega
      · omega
    | succ i =>
      have hle := ih (i := i) h
      rw [List.set_cons_succ, List.countP_cons, List.countP_cons]
      omega

/-- Replacing a task changes the count by what the two count. -/
theorem countP_set {p : τ → Bool} {t : τ} (h : pool[i]? = some t) (u : τ) :
    (pool.set i u).countP p + (if p t then 1 else 0) = pool.countP p + (if p u then 1 else 0) := by
  induction pool generalizing i with
  | nil => cases h
  | cons v pool ih =>
    cases i with
    | zero =>
      obtain rfl := Option.some.inj h
      rw [List.set_cons_zero, List.countP_cons, List.countP_cons]
      omega
    | succ i =>
      have heq := ih (i := i) h
      rw [List.set_cons_succ, List.countP_cons, List.countP_cons]
      omega

/-- Changing a task in what the count does not see leaves the count. -/
theorem countP_modify {p : τ → Bool} {f : τ → τ} (hp : ∀ t, p (f t) = p t)
    : (pool.modify i f).countP p = pool.countP p := by
  induction pool generalizing i with
  | nil => rw [List.modify_nil]
  | cons t pool ih =>
    cases i with
    | zero => rw [List.modify_zero_cons, List.countP_cons, List.countP_cons, hp]
    | succ i => rw [List.modify_succ_cons, List.countP_cons, List.countP_cons, ih]

/-- Replacing each task does not add to the count either. -/
theorem countP_mapIdx_le {p : τ → Bool} {f : ℕ → τ → τ}
    (hp : ∀ i t, p (f i t) = true → p t = true) : (pool.mapIdx f).countP p ≤ pool.countP p := by
  induction pool generalizing f with
  | nil => exact Nat.le_refl _
  | cons t pool ih =>
    have hle := ih (f := fun i => f (i + 1)) (fun i => hp (i + 1))
    rw [List.mapIdx_cons, List.countP_cons, List.countP_cons]
    split_ifs with hu hv
    · omega
    · exact absurd (hp 0 t hu) hv
    · omega
    · omega

/-! ### What the tasks of a pool contribute -/

/-- Replacing a task changes only its own contribution to what the pool collects. -/
theorem filterMap_set {β : Type*} (f : τ → Option β) {t : τ} (h : pool[i]? = some t) (u : τ) :
    ∃ l r, pool.filterMap f = l ++ (f t).toList ++ r ∧
      (pool.set i u).filterMap f = l ++ (f u).toList ++ r := by
  obtain ⟨hlt, hget⟩ := List.getElem?_eq_some_iff.mp h
  have hpool : pool = pool.take i ++ t :: pool.drop (i + 1) := by
    rw [← hget, ← List.drop_eq_getElem_cons hlt, List.take_append_drop]
  have hset : pool.set i u = pool.take i ++ u :: pool.drop (i + 1) :=
    List.set_eq_take_append_cons_drop.trans (if_pos hlt)
  refine ⟨(pool.take i).filterMap f, (pool.drop (i + 1)).filterMap f, ?_, ?_⟩
  · calc pool.filterMap f = (pool.take i ++ t :: pool.drop (i + 1)).filterMap f :=
          congrArg _ hpool
      _ = _ := by cases hf : f t <;> simp [hf]
  · rw [hset]
    cases hf : f u <;> simp [hf]

theorem filterMap_add {β : Type*} {f : τ → Option β} {t : τ} (h : f t = none) :
    (pool ++ [t]).filterMap f = pool.filterMap f := by
  simp [h]

end Pool
