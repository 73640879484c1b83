/-
# Insertion behind the lock of a key

Callers that insert a record into a table unless there is one already: a caller asks for the
mutex of its key in a registry of weakly held locks (`HelmSsh.KeyedLocks`), waits for the guard,
searches the table, and inserts its record while it still holds the guard.  What it waits for
between the search and the insertion does not matter.

A pool of such callers is described by a `GuardedInsert`: the key of a caller, the slot of the
key that its record is for, how far it is, and for which key and slot its record counts.
`GuardedInsert.Unique` is the invariant: the callers keep to their locks, and one record at most
counts for a key and a slot.  A step that replaces one caller keeps it under the conditions
`GuardedInsert.Replaces` (`GuardedInsert.Unique.set`), which the steps of the protocol meet
(`replaces_get`, `replaces_lock`, `replaces_check`, `Unique.replaces_held`, `replaces_done`).
-/

import HelmSsh.KeyedLocks
import HelmSsh.Pool

/-- How the callers of a pool insert their records. -/
structure GuardedInsert (τ κ ι χ : Type) where
  caller : ℕ → χ
  caller_injective : ∀ {i j : ℕ}, caller i = caller j → i = j
  key : τ → Option κ
  slot : τ → ι
  /-- The caller has the mutex and waits for the guard. -/
  waiting : τ → Bool
  guarding : τ → Bool
  /-- The caller has found no record, and has not inserted its own. -/
  checked : τ → Bool
  /-- The record of the caller counts for a key and a slot. -/
  active : τ → κ → ι → Bool
  guarding_of_checked : ∀ {t : τ}, checked t = true → guarding t = true
  key_of_active : ∀ {t : τ} {k : κ} {o : ι}, active t k o = true → key t = some k

namespace GuardedInsert

variable {τ κ ι χ : Type} (P : GuardedInsert τ κ ι χ)

/-- The callers keep to the locks, and one record at most counts for a key and a slot. -/
structure Unique (pool : List τ) (locks : KeyedLocks κ χ) : Prop where
  holds : ∀ (i : ℕ) (t : τ) (k : κ), pool[i]? = some t → P.key t = some k →
    P.waiting t = true → locks.Holds (P.caller i) k
  guards : ∀ (i : ℕ) (t : τ) (k : κ), pool[i]? = some t → P.key t = some k →
    P.guarding t = true → locks.Guards (P.caller i) k
  clear : ∀ (i j : ℕ) (t u : τ) (k : κ), pool[i]? = some t → pool[j]? = some u →
    P.key t = some k → P.checked t = true → P.active u k (P.slot t) = false
  unique : ∀ (i j : ℕ) (t u : τ) (k : κ) (o : ι), pool[i]? = some t → pool[j]? = some u →
    P.active t k o = true → P.active u k o = true → i = j

/-- A caller stays where it is, and its record does not come to count. -/
structure Quiet (t t' : τ) : Prop where
  key : P.key t' = P.key t
  slot : P.slot t' = P.slot t
  waiting : P.waiting t' = P.waiting t
  guarding : P.guarding t' = P.guarding t
  checked : P.checked t' = P.checked t
  active : ∀ k o, P.active t' k o = true → P.active t k o = true

/-- What a caller that is replaced must keep to. -/
structure Replaces (pool : List τ) (locks : KeyedLocks κ χ) (i : ℕ) (t t' : τ)
    (locks' : KeyedLocks κ χ) : Prop where
  key : P.key t' = P.key t
  holdsOther : ∀ j k, j ≠ i → locks.Holds (P.caller j) k → locks'.Holds (P.caller j) k
  guardsOther : ∀ j k, j ≠ i → locks.Guards (P.caller j) k → locks'.Guards (P.caller j) k
  holds : ∀ k, P.key t = some k → P.waiting t' = true → locks'.Holds (P.caller i) k
  guards : ∀ k, P.key t = some k → P.guarding t' = true → locks'.Guards (P.caller i) k
  clear : P.checked t' = true → (∀ k o, P.active t' k o = false) ∧
    ∀ k, P.key t = some k → ∀ (j : ℕ) (u : τ), pool[j]? = some u →
      P.active u k (P.slot t') = false
  /-- A record that comes to count is one that a caller inserts after its check. -/
  active : ∀ k o, P.active t' k o = true →
    P.active t k o = true ∨ P.checked t = true ∧ P.slot t = o

variable {P} {pool pool' : List τ} {locks locks' : KeyedLocks κ χ}

theorem unique_nil : P.Unique [] locks where
  holds i t k ht := by cases ht
  guards i t k ht := by cases ht
  clear i j t u k ht := by cases ht
  unique i j t u k o ht := by cases ht

theorem Unique.quiet (h : P.Unique pool locks) (hpool : Pool.Related P.Quiet pool pool')
    (hholds : ∀ i k, locks.Holds (P.caller i) k → locks'.Holds (P.caller i) k)
    (hguards : ∀ i k, locks.Guards (P.caller i) k → locks'.Guards (P.caller i) k) :
    P.Unique pool' locks' where
  holds i t' k ht' hk hp := by
    obtain ⟨t, ht, hq⟩ := hpool.back ht'
    rw [hq.key] at hk
    rw [hq.waiting] at hp
    exact hholds i k (h.holds i t k ht hk hp)
  guards i t' k ht' hk hp := by
    obtain ⟨t, ht, hq⟩ := hpool.back ht'
    rw [hq.key] at hk
    rw [hq.guarding] at hp
    exact hguards i k (h.guards i t k ht hk hp)
  clear i j t' u' k ht' hu' hk hp := by
    obtain ⟨t, ht, hq⟩ := hpool.back ht'
    obtain ⟨u, hu, hq'⟩ := hpool.back hu'
    rw [hq.key] at hk
    rw [hq.checked] at hp
    rw [← Bool.not_eq_true]
    intro hactive
    rw [hq.slot] at hactive
    have hold := hq'.active k (P.slot t) hactive
    rw [h.clear i j t u k ht hu hk hp] at hold
    cases hold
  unique i j t' u' k o ht' hu' hactive hactive' := by
    obtain ⟨t, ht, hq⟩ := hpool.back ht'
    obtain ⟨u, hu, hq'⟩ := hpool.back hu'
    exact h.unique i j t u k o ht hu (hq.active k o hactive) (hq'.active k o hactive')

/-- A caller comes whose record does not count and which is not at a lock. -/
theorem Unique.add (h : P.Unique pool locks) {t : τ} (hinactive : ∀ k o, P.active t k o = false)
    (hoff : ∀ k, P.key t = some k → P.waiting t = false ∧ P.guarding t = false) :
    P.Unique (pool ++ [t]) locks where
  holds i u k hu hk hp := by
    rcases Pool.getElem?_add hu with ⟨_, rfl⟩ | hold
    · rw [(hoff k hk).1] at hp
      cases hp
    · exact h.holds i u k hold hk hp
  guards i u k hu hk hp := by
    rcases Pool.getElem?_add hu with ⟨_, rfl⟩ | hold
    · rw [(hoff k hk).2] at hp
      cases hp
    · exact h.guards i u k hold hk hp
  clear i j u v k hu hv hk hp := by
    rcases Pool.getElem?_add hu with ⟨_, rfl⟩ | hold
    · have hguarding := P.guarding_of_checked hp
      rw [(hoff k hk).2] at hguarding
      cases hguarding
    · rcases Pool.getElem?_add hv with ⟨_, rfl⟩ | hold'
      · exact hinactive k _
      · exact h.clear i j u v k hold hold' hk hp
  unique i j u v k o hu hv hactive hactive' := by
    rcases Pool.getElem?_add hu with ⟨_, rfl⟩ | hold
    · rw [hinactive] at hactive
      cases hactive
    · rcases Pool.getElem?_add hv with ⟨_, rfl⟩ | hold'
      · rw [hinactive] at hactive'
        cases hactive'
      · exact h.unique i j u v k o hold hold' hactive hactive'

/-- **A caller is replaced.**  A record that comes to count is that of a caller that has found
none and still holds the guard of its key, so no other caller inserts one. -/
theorem Unique.set (h : P.Unique pool locks) {i : ℕ} {t : τ} (ht : pool[i]? = some t) (t' : τ)
    (hr : P.Replaces pool locks i t t' locks') : P.Unique (pool.set i t') locks' := by
  have halone : ∀ (j : ℕ) (u : τ) (k : κ), j ≠ i → pool[j]? = some u → P.key u = some k →
      P.checked u = true → P.key t = some k → P.checked t = true → False := by
    intro j u k hne hu hk hp hkt hpt
    have hguard := h.guards j u k hu hk (P.guarding_of_checked hp)
    have hguard' := h.guards i t k ht hkt (P.guarding_of_checked hpt)
    exact hne (P.caller_injective (KeyedLocks.guards_unique hguard hguard'))
  have hactive : ∀ (j : ℕ) (u : τ) (k : κ) (o : ι), j ≠ i → pool[j]? = some u →
      P.active u k o = true → P.active t' k o = true → False := by
    intro j u k o hne hu hactive hactive'
    rcases hr.active k o hactive' with hold | ⟨hchecked, rfl⟩
    · exact hne (h.unique j i u t k o hu ht hactive hold)
    · have hk := P.key_of_active hactive'
      rw [hr.key] at hk
      rw [h.clear i j t u k ht hu hk hchecked] at hactive
      cases hactive
  constructor
  · intro j u k hu hk hp
    rcases Pool.getElem?_set hu with ⟨rfl, rfl⟩ | ⟨hne, hold⟩
    · exact hr.holds k (by rw [← hr.key]; exact hk) hp
    · exact hr.holdsOther j k hne (h.holds j u k hold hk hp)
  · intro j u k hu hk hp
    rcases Pool.getElem?_set hu with ⟨rfl, rfl⟩ | ⟨hne, hold⟩
    · exact hr.guards k (by rw [← hr.key]; exact hk) hp
    · exact hr.guardsOther j k hne (h.guards j u k hold hk hp)
  · intro j l u v k hu hv hk hp
    rcases Pool.getElem?_set hu with ⟨rfl, rfl⟩ | ⟨hne, hold⟩
    · obtain ⟨hinactive, hclear⟩ := hr.clear hp
      rcases Pool.getElem?_set hv with ⟨rfl, rfl⟩ | ⟨_, hold'⟩
      · exact hinactive k _
      · exact hclear k (by rw [← hr.key]; exact hk) l v hold'
    · rcases Pool.getElem?_set hv with ⟨rfl, rfl⟩ | ⟨_, hold'⟩
      · rw [← Bool.not_eq_true]
        intro hv
        rcases hr.active k (P.slot u) hv with hold' | ⟨hchecked, _⟩
        · rw [h.clear j l u t k hold ht hk hp] at hold'
          cases hold'
        · have hkt := P.key_of_active hv
          rw [hr.key] at hkt
          exact halone j u k hne hold hk hp hkt hchecked
      · exact h.clear j l u v k hold hold' hk hp
  · intro j l u v k o hu hv hactiveU hactiveV
    rcases Pool.getElem?_set hu with ⟨rfl, rfl⟩ | ⟨hne, hold⟩
    · rcases Pool.getElem?_set hv with ⟨rfl, rfl⟩ | ⟨hne', hold'⟩
      · rfl
      · exact (hactive l v k o hne' hold' hactiveV hactiveU).elim
    · rcases Pool.getElem?_set hv with ⟨rfl, rfl⟩ | ⟨_, hold'⟩
      · exact (hactive j u k o hne hold hactiveU hactiveV).elim
      · exact h.unique j l u v k o hold hold' hactiveU hactiveV

/-! ### The steps of the protocol -/

section Steps

variable {i : ℕ} {t t' : τ}

theorem replaces_get [DecidableEq κ] {k : κ} (hk : P.key t = some k) (hkey : P.key t' = P.key t)
    (hguarding : P.guarding t' = false)
    (hactive : ∀ k o, P.active t' k o = true → P.active t k o = true) :
    P.Replaces pool locks i t t' (locks.get (P.caller i) k) where
  key := hkey
  holdsOther _ _ _ hold := KeyedLocks.holds_get.mpr (.inr hold)
  guardsOther _ _ _ hold := KeyedLocks.guards_get.mpr hold
  holds k' hk' _ := by
    rw [hk] at hk'
    exact KeyedLocks.holds_get.mpr (.inl ⟨rfl, Option.some.inj hk'⟩)
  guards _ _ hp := by
    rw [hguarding] at hp
    cases hp
  clear hp := by
    have hp := P.guarding_of_checked hp
    rw [hguarding] at hp
    cases hp
  active k o h := .inl (hactive k o h)

theorem Unique.replaces_lock [DecidableEq χ] (h : P.Unique pool locks) (ht : pool[i]? = some t)
    (hp : P.waiting t = true) (hfree : locks.Free (P.caller i)) (hkey : P.key t' = P.key t)
    (hwaiting : P.waiting t' = false) (hchecked : P.checked t' = false)
    (hactive : ∀ k o, P.active t' k o = true → P.active t k o = true) :
    P.Replaces pool locks i t t' (locks.lock (P.caller i)) where
  key := hkey
  holdsOther _ _ _ hold := KeyedLocks.holds_lock.mpr hold
  guardsOther _ _ _ hold := hold.lock _
  holds _ _ hp := by
    rw [hwaiting] at hp
    cases hp
  guards k hk _ := (h.holds i t k ht hk hp).lock hfree
  clear hp := by
    rw [hchecked] at hp
    cases hp
  active k o h := .inl (hactive k o h)

theorem Unique.replaces_check (h : P.Unique pool locks) (ht : pool[i]? = some t)
    (hp : P.guarding t = true) (hkey : P.key t' = P.key t) (hslot : P.slot t' = P.slot t)
    (hwaiting : P.waiting t' = false)
    (hactive : ∀ k o, P.active t' k o = true → P.active t k o = true)
    (hclear : ∀ k, P.key t = some k → ∀ (j : ℕ) (u : τ), pool[j]? = some u →
      P.active u k (P.slot t) = false)
    (hinactive : ∀ k o, P.active t' k o = false) : P.Replaces pool locks i t t' locks where
  key := hkey
  holdsOther _ _ _ hold := hold
  guardsOther _ _ _ hold := hold
  holds _ _ hp := by
    rw [hwaiting] at hp
    cases hp
  guards k hk _ := h.guards i t k ht hk hp
  clear _ := by
    refine ⟨hinactive, fun k hk j u hu => ?_⟩
    rw [hslot]
    exact hclear k hk j u hu
  active k o h := .inl (hactive k o h)

/-- A caller goes on without touching its lock; it may insert its record after the check. -/
theorem Unique.replaces_held (h : P.Unique pool locks) (ht : pool[i]? = some t)
    (hkey : P.key t' = P.key t) (hwaiting : P.waiting t' = false)
    (hguarding : P.guarding t' = true → P.guarding t = true)
    (hchecked : P.checked t' = true → P.checked t = true ∧ P.slot t' = P.slot t ∧
      ∀ k o, P.active t' k o = false)
    (hactive : ∀ k o, P.active t' k o = true →
      P.active t k o = true ∨ P.checked t = true ∧ P.slot t = o) :
    P.Replaces pool locks i t t' locks where
  key := hkey
  holdsOther _ _ _ hold := hold
  guardsOther _ _ _ hold := hold
  holds _ _ hp := by
    rw [hwaiting] at hp
    cases hp
  guards k hk hp := h.guards i t k ht hk (hguarding hp)
  clear hp := by
    obtain ⟨hold, hslot, hinactive⟩ := hchecked hp
    refine ⟨hinactive, fun k hk j u hu => ?_⟩
    rw [hslot]
    exact h.clear i j t u k ht hu hk hold
  active := hactive

theorem replaces_done [DecidableEq χ] (hkey : P.key t' = P.key t) (hwaiting : P.waiting t' = false)
    (hguarding : P.guarding t' = false)
    (hactive : ∀ k o, P.active t' k o = true →
      P.active t k o = true ∨ P.checked t = true ∧ P.slot t = o) :
    P.Replaces pool locks i t t' (locks.drop (P.caller i)) where
  key := hkey
  holdsOther j k hne hold :=
    KeyedLocks.holds_drop.mpr ⟨fun heq => hne (P.caller_injective heq), hold⟩
  guardsOther j k hne hold :=
    KeyedLocks.guards_drop.mpr ⟨fun heq => hne (P.caller_injective heq), hold⟩
  holds _ _ hp := by
    rw [hwaiting] at hp
    cases hp
  guards _ _ hp := by
    rw [hguarding] at hp
    cases hp
  clear hp := by
    have hp := P.guarding_of_checked hp
    rw [hguarding] at hp
    cases hp
  active := hactive

end Steps

end GuardedInsert
