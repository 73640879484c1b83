/-
# A table whose entries have owners

A table that several tasks write, each its own entries: the entry of a key names a task, and the
task claims the key.  `OwnedTable` says that the two agree.  A task that claims a key with no
entry may write it (`OwnedTable.insert`), and one that gives up a key of its own may remove it
(`OwnedTable.remove`); no key has two owners (`OwnedTable.owner_unique`).
-/

import Mathlib.Logic.Function.Basic
import Mathlib.Tactic.Common

/-- The entry of a key is the task that owns it. -/
def OwnedTable {κ ι : Type*} (table : κ → Option ι) (owns : ι → κ → Prop) : Prop :=
  ∀ k i, table k = some i ↔ owns i k

namespace OwnedTable

variable {κ ι : Type*} {table : κ → Option ι} {owns owns' : ι → κ → Prop}

theorem congr (h : OwnedTable table owns) (howns : ∀ i k, owns' i k ↔ owns i k) :
    OwnedTable table owns' :=
  fun k i => (h k i).trans (howns i k).symm

theorem owner_unique (h : OwnedTable table owns) {i j : ι} {k : κ} (hi : owns i k)
    (hj : owns j k) : i = j := by
  have hentry := (h k i).mpr hi
  rw [(h k j).mpr hj] at hentry
  exact (Option.some.inj hentry).symm

theorem not_owns (h : OwnedTable table owns) {k : κ} (hfree : table k = none) (i : ι) :
    ¬ owns i k := by
  intro howns
  rw [(h k i).mpr howns] at hfree
  cases hfree

/-- **A task writes the entry of a key that has none.** -/
theorem insert [DecidableEq κ] (h : OwnedTable table owns) {i : ι} {k : κ}
    (hfree : table k = none) (howns : ∀ j l, owns' j l ↔ owns j l ∨ j = i ∧ l = k) :
    OwnedTable (Function.update table k (some i)) owns' := by
  intro l j
  rw [howns]
  by_cases hl : l = k
  · subst hl
    rw [Function.update_self]
    constructor
    · intro heq
      exact .inr ⟨(Option.some.inj heq).symm, rfl⟩
    · rintro (hold | ⟨rfl, _⟩)
      · exact absurd hold (h.not_owns hfree j)
      · rfl
  · rw [Function.update_of_ne hl, h l j]
    constructor
    · exact .inl
    · rintro (hold | ⟨_, heq⟩)
      · exact hold
      · exact absurd heq hl

/-- **A task removes the entry of a key that it owns.** -/
theorem remove [DecidableEq κ] (h : OwnedTable table owns) {i : ι} {k : κ} (hi : owns i k)
    (howns : ∀ j l, owns' j l ↔ owns j l ∧ ¬ (j = i ∧ l = k)) :
    OwnedTable (Function.update table k none) owns' := by
  intro l j
  rw [howns]
  by_cases hl : l = k
  · subst hl
    rw [Function.update_self]
    constructor
    · nofun
    · rintro ⟨hold, hne⟩
      exact absurd ⟨h.owner_unique hold hi, rfl⟩ hne
  · rw [Function.update_of_ne hl, h l j]
    exact ⟨fun hold => ⟨hold, fun heq => hl heq.2⟩, fun hold => hold.1⟩

end OwnedTable
